import Ixgbe.Hw.Basic

/-! # The scan for illegal packets

After a transmit hang the driver reads the cached descriptors at the multiples of the queue, by
masks shifted before they are applied. So it never reads the queue's own ones (`lowerHit_fill`). -/

namespace Ixgbe

open List

structure AdvTxContextDesc where
  vlanMacipLens : U32
  seqnumSeed : U32
  typeTucmdMlhl : U32
  mssL4lenIdx : U32

/-- The test of one descriptor; `>>` binds stronger than `&`. -/
def illegalDesc (cd : AdvTxContextDesc) : Bool :=
  (cd.typeTucmdMlhl &&& (0x00F00000 : U32) >>> 20) == 2 &&
    decide ((cd.mssL4lenIdx &&& (0xFFFF0000 : U32) >>> 16) +
      (cd.vlanMacipLens &&& 0x000001FF) > 16384)

def checkIllegalQueue (cache : ℕ → AdvTxContextDesc) (queue : ℕ) : Bool :=
  (range 40).any fun i => illegalDesc (cache (queue * i))

def getVfIdx (numTxQueues : ℕ) (gcrExt : U32) (queue : ℕ) : Option ℕ :=
  if numTxQueues ≤ queue then none
  else if gcrExt &&& 3 = 3 then some (queue / 2)
  else if gcrExt &&& 3 = 2 then some (queue / 4)
  else if gcrExt &&& 3 = 1 then some (queue / 8)
  else none

/-- The VFs named by the messages and those with their link disabled, latest first, and
`tx_hang_count`. -/
structure VfHangs where
  reported : List ℕ
  txHangCount : ℕ → BitVec 16
  disabled : List ℕ

/-- `IXGBE_MAX_TX_VF_HANGS` -/
def maxTxVfHangs : BitVec 16 := 4

/-- Only on the E610; the link is disabled at the fourth report. -/
def resetVfReport (mac : MacType) (s : VfHangs) (vf : ℕ) : VfHangs :=
  if mac = .macE610 then
    let count := s.txHangCount vf + 1
    if count = maxTxVfHangs then
      { reported := vf :: s.reported
        txHangCount := Function.update s.txHangCount vf 0
        disabled := vf :: s.disabled }
    else
      { s with
        reported := vf :: s.reported
        txHangCount := Function.update s.txHangCount vf count }
  else s

/-- `mdd` says that the detection is enabled and has found a malicious VF. -/
def handleMddEvent (mac : MacType) (numTxQueues : ℕ) (gcrExt : U32)
    (cache : ℕ → AdvTxContextDesc) (mdd : Bool) (queueIndex : ℕ) (s : VfHangs) : VfHangs :=
  if mdd then
    match getVfIdx numTxQueues gcrExt queueIndex with
    | some vf => resetVfReport mac s vf
    | none => s
  else
    (range 128).foldl (fun s q =>
      match if checkIllegalQueue cache q then getVfIdx numTxQueues gcrExt q else none with
      | some vf => resetVfReport mac s vf
      | none => s) s

/-- What is recorded of one VF. -/
def VfHangs.of (s : VfHangs) (vf : ℕ) : ℕ × BitVec 16 × ℕ :=
  (s.reported.count vf, s.txHangCount vf, s.disabled.count vf)

namespace AdvTxContextDesc

/-- A context descriptor with an illegal sum of MSS and header length. -/
def Illegal (cd : AdvTxContextDesc) : Prop :=
  cd.typeTucmdMlhl.toNat / 2 ^ 20 % 16 = 2 ∧
    16384 < cd.mssL4lenIdx.toNat / 2 ^ 16 + cd.vlanMacipLens.toNat % 512

/-- The same of the lowest bits. -/
def LooksIllegal (cd : AdvTxContextDesc) : Prop :=
  cd.typeTucmdMlhl.toNat % 16 = 2 ∧
    16384 < cd.mssL4lenIdx.toNat % 2 ^ 16 + cd.vlanMacipLens.toNat % 512

instance (cd : AdvTxContextDesc) : Decidable cd.Illegal := inferInstanceAs (Decidable (_ ∧ _))

end AdvTxContextDesc

section

variable (cache : ℕ → AdvTxContextDesc) (q : ℕ)

def HoldsIllegal : Prop :=
  ∃ i < 40, (cache (q * 40 + i)).Illegal

/-- A descriptor of a lower queue, at a multiple of `q`, looks illegal. -/
def LowerHit : Prop :=
  ∃ p < q, ∃ i < 40, q ∣ p * 40 + i ∧ (cache (p * 40 + i)).LooksIllegal

/-- Queue 0 is judged by its first descriptor, the others by those of lower queues. -/
def ScanHits : Prop :=
  q = 0 ∧ (cache 0).LooksIllegal ∨ LowerHit cache q

/-- Other contents of the descriptors of queue `q`. -/
def fillQueue (own : ℕ → AdvTxContextDesc) (a : ℕ) : AdvTxContextDesc :=
  if a / 40 = q then own (a % 40) else cache a

end

instance (cache : ℕ → AdvTxContextDesc) (q : ℕ) : Decidable (HoldsIllegal cache q) :=
  inferInstanceAs (Decidable (∃ i < 40, _))

theorem illegalDesc_iff (cd : AdvTxContextDesc) : illegalDesc cd = true ↔ cd.LooksIllegal := by
  have htype : (cd.typeTucmdMlhl &&& (0x00F00000 : U32) >>> 20).toNat =
      cd.typeTucmdMlhl.toNat % 16 := Nat.and_two_pow_sub_one_eq_mod _ 4
  have hmss : (cd.mssL4lenIdx &&& (0xFFFF0000 : U32) >>> 16).toNat =
      cd.mssL4lenIdx.toNat % 2 ^ 16 := Nat.and_two_pow_sub_one_eq_mod _ 16
  have hhead : (cd.vlanMacipLens &&& 0x000001FF).toNat = cd.vlanMacipLens.toNat % 512 :=
    Nat.and_two_pow_sub_one_eq_mod _ 9
  have hsum : cd.mssL4lenIdx.toNat % 2 ^ 16 + cd.vlanMacipLens.toNat % 512 < 2 ^ 32 := by omega
  rw [illegalDesc, Bool.and_eq_true, beq_iff_eq, decide_eq_true_iff, gt_iff_lt, BitVec.lt_def,
    BitVec.toNat_add, hmss, hhead, ← BitVec.toNat_inj, htype, Nat.mod_eq_of_lt hsum]
  rfl

section

variable (cache : ℕ → AdvTxContextDesc) {q : ℕ}

/-- The multiples that are read lie below the queue's own descriptors. -/
theorem checkIllegalQueue_iff : checkIllegalQueue cache q = true ↔ ScanHits cache q := by
  simp only [checkIllegalQueue, any_eq_true, mem_range, illegalDesc_iff]
  rcases Nat.eq_zero_or_pos q with rfl | hq
  · constructor
    · rintro ⟨i, -, hlooks⟩
      rw [Nat.zero_mul] at hlooks
      exact .inl ⟨rfl, hlooks⟩
    · rintro (⟨-, hlooks⟩ | ⟨p, hp, -⟩)
      · exact ⟨0, by decide, hlooks⟩
      · exact absurd hp (Nat.not_lt_zero p)
  rw [ScanHits, or_iff_right fun h => hq.ne' h.1]
  constructor
  · rintro ⟨i, hi, hlooks⟩
    have hlt : q * i < q * 40 := Nat.mul_lt_mul_of_pos_left hi hq
    have ha : q * i / 40 * 40 + q * i % 40 = q * i := Nat.div_add_mod' ..
    refine ⟨q * i / 40, by omega, q * i % 40, Nat.mod_lt _ (by decide), ?_, ?_⟩
    · rw [ha]
      exact Nat.dvd_mul_right ..
    · rwa [ha]
  · rintro ⟨p, hp, i, hi, ⟨k, hk⟩, hlooks⟩
    rw [hk] at hlooks
    refine ⟨k, Nat.lt_of_mul_lt_mul_left (a := q) ?_, hlooks⟩
    omega

variable (own : ℕ → AdvTxContextDesc)

theorem fillQueue_own {i : ℕ} (hi : i < 40) : fillQueue cache q own (q * 40 + i) = own i := by
  rw [fillQueue, if_pos (by omega), show (q * 40 + i) % 40 = i by omega]

/-- **The contents of a queue make no difference to its scan.** -/
theorem lowerHit_fill : LowerHit (fillQueue cache q own) q ↔ LowerHit cache q := by
  refine exists_congr fun p => and_congr_right fun hp => exists_congr fun i =>
    and_congr_right fun hi => ?_
  rw [fillQueue, if_neg (by omega)]

theorem holdsIllegal_fill :
    HoldsIllegal (fillQueue cache q own) q ↔ ∃ i < 40, (own i).Illegal :=
  exists_congr fun _ => and_congr_right fun hi => by rw [fillQueue_own cache own hi]

end

section

variable (mac : MacType) (vfs : List ℕ) (s : VfHangs) (vf : ℕ)

theorem count_reported_foldl (hmac : mac = .macE610) :
    (vfs.foldl (resetVfReport mac) s).reported.count vf =
      s.reported.count vf + vfs.count vf := by
  induction vfs generalizing s with
  | nil => rfl
  | cons v vfs ih =>
    have hv : (resetVfReport mac s v).reported = v :: s.reported := by
      rw [resetVfReport, if_pos hmac]
      dsimp only
      split <;> rfl
    rw [foldl_cons, ih, hv, count_cons, count_cons]
    omega

theorem of_foldl_of_notMem (h : vf ∉ vfs) : (vfs.foldl (resetVfReport mac) s).of vf = s.of vf := by
  induction vfs generalizing s with
  | nil => rfl
  | cons v vfs ih =>
    obtain ⟨hne, h⟩ := not_or.mp (mt mem_cons.mpr h)
    rw [foldl_cons, ih _ h, resetVfReport]
    dsimp only
    split_ifs <;> simp [VfHangs.of, hne, Ne.symm hne]

/-- The record of a VF changes exactly if it is among the reported ones. -/
theorem of_foldl_ne_iff : (vfs.foldl (resetVfReport mac) s).of vf ≠ s.of vf ↔
    mac = .macE610 ∧ vf ∈ vfs := by
  by_cases hmac : mac = .macE610
  · refine ⟨fun h => ⟨hmac, by_contra fun hvf => h (of_foldl_of_notMem mac vfs s vf hvf)⟩,
      fun ⟨_, hvf⟩ h => ?_⟩
    have hcount : _ = s.reported.count vf := congrArg Prod.fst h
    have hpos := List.count_pos_iff.mpr hvf
    rw [VfHangs.of, count_reported_foldl mac vfs s vf hmac] at hcount
    omega
  · have hid : resetVfReport mac = fun s _ => s := funext₂ fun s v => if_neg hmac
    rw [hid, foldl_fixed]
    exact iff_of_false (fun h => h rfl) fun h => hmac h.1

end

section

variable (mac : MacType) (numTxQueues : ℕ) (gcrExt : U32) (cache : ℕ → AdvTxContextDesc)

theorem handleMddEvent_ne_iff (queueIndex : ℕ) (s : VfHangs) (vf : ℕ) :
    (handleMddEvent mac numTxQueues gcrExt cache false queueIndex s).of vf ≠ s.of vf ↔
      mac = .macE610 ∧ ∃ q < 128, ScanHits cache q ∧ getVfIdx numTxQueues gcrExt q = some vf := by
  have hfold : handleMddEvent mac numTxQueues gcrExt cache false queueIndex s =
      ((range 128).filterMap fun q => if checkIllegalQueue cache q then
        getVfIdx numTxQueues gcrExt q else none).foldl (resetVfReport mac) s := by
    rw [handleMddEvent, if_neg Bool.false_ne_true, foldl_filterMap]
    refine congrArg (List.foldl · s _) (funext₂ fun s q => ?_)
    cases (if checkIllegalQueue cache q then getVfIdx numTxQueues gcrExt q else none) <;> rfl
  rw [hfold, of_foldl_ne_iff]
  simp [checkIllegalQueue_iff]

end

def cacheWith (a : ℕ) (cd : AdvTxContextDesc) (addr : ℕ) : AdvTxContextDesc :=
  if addr = a then cd else ⟨0, 0, 0, 0⟩

end Ixgbe
