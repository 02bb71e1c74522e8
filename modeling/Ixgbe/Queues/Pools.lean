import Ixgbe.Queues.Config

/-! # Pools of queues

With VMDq, pool `p` has the `q` queues from `p * q` on. No pool gets more rings than it has queues.
-/

namespace Ixgbe

open List Nat

inductive PoolMode
  | pools16
  | pools32
  | pools64
  deriving DecidableEq, Repr

def PoolMode.mask : PoolMode → U16
  | .pools16 => vmdq8qMask
  | .pools32 => vmdq4qMask
  | .pools64 => vmdq2qMask

def PoolMode.queues : PoolMode → ℕ
  | .pools16 => 8
  | .pools32 => 4
  | .pools64 => 2

def RingFeature.poolSize (f : RingFeature) : ℕ := (alignMask 1 (~~~f.mask)).toNat

theorem alignMask_mode (m : PoolMode) : alignMask 1 (~~~m.mask) = BitVec.ofNat 16 m.queues := by
  cases m <;> rfl

theorem poolSize_mode {f : RingFeature} {m : PoolMode} (h : f.mask = m.mask) :
    f.poolSize = m.queues := by
  rw [RingFeature.poolSize, h, alignMask_mode]
  cases m <;> rfl

def PoolMode.count : PoolMode → U16
  | .pools16 => 16
  | .pools32 => 32
  | .pools64 => 64

/-- So many pools for the PF, and so many rings in each. -/
def QueueAdapter.withPools (a : QueueAdapter) (m : PoolMode) (pools : U16) (queues : ℕ)
    (rssIndices rssMask : U16) : QueueAdapter :=
  { a with
    vmdq.indices := pools
    vmdq.mask := m.mask
    rss.indices := rssIndices
    rss.mask := rssMask
    numRxPools := pools.toNat
    numRxQueuesPerPool := queues
    numRxQueues := pools.toNat * queues
    numTxQueues := pools.toNat * queues }

def dcbMode (numTc : ℕ) : PoolMode := if numTc > 4 then .pools16 else .pools32

theorem le_queues_dcbMode {numTc : ℕ} (h : numTc ≤ 8) : numTc ≤ (dcbMode numTc).queues := by
  rw [dcbMode]
  split
  · exact h
  · exact not_lt.mp (by assumption)

section

variable {a : QueueAdapter}

theorem vmdqOn (h : a.vmdqEnabled = true) : ¬ (!a.vmdqEnabled) = true := by
  rw [h]
  decide

theorem setDcbVmdqQueues_eq (htc : 1 < a.numTc) (hvmdq : a.vmdqEnabled = true) :
    setDcbVmdqQueues a = some (a.withPools (dcbMode a.numTc)
      (minU16 (a.vmdq.limit + a.vmdq.offset) (dcbMode a.numTc).count - a.vmdq.offset)
      a.numTc 1 0) := by
  rw [setDcbVmdqQueues, if_neg (not_le.mpr htc), if_neg (vmdqOn hvmdq), dcbMode]
  by_cases h : a.numTc > 4
  · simp only [if_pos h]
    rfl
  · simp only [if_neg h]
    rfl

def totalPools (a : QueueAdapter) : U16 := minU16 maxVmdqIndices (a.vmdq.limit + a.vmdq.offset)

def vmdqMode (total : U16) : PoolMode := if total.toNat > 32 then .pools64 else .pools32

def PoolMode.rssQueues (m : PoolMode) (limit : U16) : U16 :=
  match m with
  | .pools64 => minU16 limit 2
  | _ => if limit.toNat > 3 then 4 else if limit.toNat > 1 then 2 else 1

def PoolMode.rssMask : PoolMode → U16
  | .pools64 => 0x1
  | _ => 0x3

theorem rssQueues_le_queues (total limit : U16) :
    ((vmdqMode total).rssQueues limit).toNat ≤ (vmdqMode total).queues := by
  rw [vmdqMode]
  split
  · change (minU16 limit 2).toNat ≤ 2
    rw [minU16]
    split
    case isTrue h => exact h.le
    case isFalse h => exact le_rfl
  · change BitVec.toNat
      (if limit.toNat > 3 then (4 : U16) else if limit.toNat > 1 then 2 else 1) ≤ 4
    split
    · exact le_rfl
    · split <;> decide

theorem setVmdqQueues_eq (hvmdq : a.vmdqEnabled = true) :
    setVmdqQueues a = some (a.withPools (vmdqMode (totalPools a)) (totalPools a - a.vmdq.offset)
      ((vmdqMode (totalPools a)).rssQueues a.rss.limit).toNat
      ((vmdqMode (totalPools a)).rssQueues a.rss.limit) (vmdqMode (totalPools a)).rssMask) := by
  rw [setVmdqQueues, if_neg (vmdqOn hvmdq), ← totalPools, vmdqMode]
  by_cases h : (totalPools a).toNat > 32
  · simp only [if_pos h]
    rfl
  · simp only [if_neg h]
    rfl

def SelectsPlace (sel : U16) (q : ℕ) : Prop :=
  ∀ x < 128, (BitVec.ofNat 16 x &&& sel).toNat = x % q

instance (sel : U16) (q : ℕ) : Decidable (SelectsPlace sel q) :=
  inferInstanceAs (Decidable (∀ x < 128, _))

theorem PoolMode.selectsPlace (m : PoolMode) : SelectsPlace (~~~m.mask) m.queues := by
  cases m <;> decide

theorem cacheRegIdx_eq {sel mask : U16} {q per p : ℕ} (hsel : SelectsPlace sel q) (hper : per ≤ q)
    (hp : (p + 1) * q ≤ 128) (k j : ℕ) (hk : j + k ≤ per) :
    cacheRegIdx sel mask per k (BitVec.ofNat 16 (p * q + j)) =
      (List.range k).map fun i => BitVec.ofNat 8 (p * q + (j + i)) := by
  -- on the rings that are left; the next one is at place `j` of the pool
  induction k generalizing j with
  | zero => rfl
  | succ k ih =>
    have hlt : p * q + j < 128 := by
      rw [add_mul, one_mul] at hp
      omega
    -- the place is below `per`, so the loop does not skip to the next pool
    have hplace : ¬ (BitVec.ofNat 16 (p * q + j) &&& sel).toNat ≥ per := by
      rw [hsel _ hlt, mul_comm, mul_add_mod, mod_eq_of_lt (by omega)]
      omega
    have hnext : BitVec.ofNat 16 (p * q + j) + 1 = BitVec.ofNat 16 (p * q + (j + 1)) := by
      exact (BitVec.ofNat_add ..).symm
    have hwidth : (BitVec.ofNat 16 (p * q + j)).setWidth 8 = BitVec.ofNat 8 (p * q + j) :=
      BitVec.setWidth_ofNat_of_le (by decide) _
    rw [cacheRegIdx, if_neg hplace, hnext, hwidth, ih (j + 1) (by omega),
      range_succ_eq_map, map_cons, map_map]
    refine congrArg₂ _ rfl (map_congr_left fun i _ => ?_)
    exact congrArg (fun x => BitVec.ofNat 8 (p * q + x)) (by simp only [succ_eq_add_one]; omega)

theorem cacheRingRegister_dcb (htc : 1 < a.numTc)
    (hvmdq : a.vmdqEnabled = true) : cacheRingRegister a = { a with
      rxRing := cacheRegIdx (~~~a.vmdq.mask) a.vmdq.mask a.numTc a.numRxQueues a.vmdq.firstRegIdx
      txRing := cacheRegIdx (~~~a.vmdq.mask) a.vmdq.mask a.numTc a.numTxQueues
        a.vmdq.firstRegIdx } := by
  rw [cacheRingRegister, cacheRingDcbVmdq, if_neg (not_le.mpr htc), if_neg (vmdqOn hvmdq)]

theorem cacheRingRegister_vmdq (htc : a.numTc ≤ 1)
    (hvmdq : a.vmdqEnabled = true) : cacheRingRegister a = { a with
      rxRing := cacheRegIdx (~~~a.vmdq.mask) a.vmdq.mask a.rss.indices.toNat a.numRxQueues
        a.vmdq.firstRegIdx
      txRing := cacheRegIdx a.rss.mask a.vmdq.mask a.rss.indices.toNat a.numTxQueues
        a.vmdq.firstRegIdx } := by
  rw [cacheRingRegister, cacheRingDcbVmdq, if_pos htc, cacheRingDcb, if_pos htc, cacheRingVmdq,
    if_neg (vmdqOn hvmdq)]

end

def InPool (q p : ℕ) (l : List U8) : Prop :=
  l.Nodup ∧ ∀ i ∈ l, p * q ≤ i.toNat ∧ i.toNat < (p + 1) * q

theorem inPool_map {q p k : ℕ} (hk : k ≤ q) (hp : (p + 1) * q ≤ 128) :
    InPool q p ((List.range k).map fun i => BitVec.ofNat 8 (p * q + (0 + i))) := by
  have hval : ∀ i < k, (BitVec.ofNat 8 (p * q + (0 + i))).toNat = p * q + i := fun i hi => by
    rw [BitVec.toNat_ofNat, zero_add]
    -- queue numbers are 8 bits wide, and there are 128 queues
    rw [add_mul, one_mul] at hp
    exact mod_eq_of_lt (by omega)
  refine ⟨List.Nodup.map_on (fun i hi j hj hij => ?_) nodup_range, fun x hx => ?_⟩
  · rw [mem_range] at hi hj
    have h := congrArg BitVec.toNat hij
    rw [hval i hi, hval j hj] at h
    omega
  · obtain ⟨i, hi, rfl⟩ := mem_map.mp hx
    rw [mem_range] at hi
    rw [hval i hi, add_mul, one_mul]
    omega

theorem InPool.not_before {q p : ℕ} {l : List U8} (h : InPool q p l) {i : U8} (hi : i ∈ l) :
    ¬ i.toNat < p * q := not_lt.mpr (h.2 i hi).1

structure QueueLayout where
  vmdqIndices : U16
  vmdqMask : U16
  rssIndices : U16
  rssMask : U16
  fdirIndices : U16
  numRxPools : ℕ
  numRxQueuesPerPool : ℕ
  numRxQueues : ℕ
  numTxQueues : ℕ
  rxRing : List U8
  txRing : List U8

def QueueAdapter.withLayout (a : QueueAdapter) (l : QueueLayout) : QueueAdapter :=
  { a with
    vmdq.indices := l.vmdqIndices
    vmdq.mask := l.vmdqMask
    rss.indices := l.rssIndices
    rss.mask := l.rssMask
    fdir.indices := l.fdirIndices
    numRxPools := l.numRxPools
    numRxQueuesPerPool := l.numRxQueuesPerPool
    numRxQueues := l.numRxQueues
    numTxQueues := l.numTxQueues
    rxRing := l.rxRing
    txRing := l.txRing }

def QueueAdapter.base (a : QueueAdapter) : QueueAdapter :=
  { a with numRxQueues := 1, numTxQueues := 1, numRxPools := 1, numRxQueuesPerPool := 1 }

def LaidOut (a b : QueueAdapter) : Prop := ∃ l, b = a.withLayout l

theorem LaidOut.trans {a b c : QueueAdapter} (hab : LaidOut a b) (hbc : LaidOut b c) :
    LaidOut a c := by
  obtain ⟨_, rfl⟩ := hab
  obtain ⟨l, rfl⟩ := hbc
  exact ⟨l, rfl⟩

section

variable {a b : QueueAdapter}

theorem setDcbVmdqQueues_laidOut (h : setDcbVmdqQueues a = some b) : LaidOut a b := by
  rw [setDcbVmdqQueues] at h
  split at h
  · cases h
  split at h
  · cases h
  · obtain rfl := Option.some.inj h
    exact ⟨⟨_, _, _, _, _, _, _, _, _, _, _⟩, rfl⟩

theorem setDcbQueues_laidOut (h : setDcbQueues a = some b) : LaidOut a b := by
  rw [setDcbQueues] at h
  split at h
  · cases h
  · obtain rfl := Option.some.inj h
    exact ⟨⟨_, _, _, _, _, _, _, _, _, _, _⟩, rfl⟩

theorem setVmdqQueues_laidOut (h : setVmdqQueues a = some b) : LaidOut a b := by
  rw [setVmdqQueues] at h
  split at h
  · cases h
  · obtain rfl := Option.some.inj h
    exact ⟨⟨_, _, _, _, _, _, _, _, _, _, _⟩, rfl⟩

theorem setRssQueues_laidOut (a : QueueAdapter) : LaidOut a (setRssQueues a) := by
  rw [setRssQueues]
  dsimp only
  split <;> exact ⟨⟨_, _, _, _, _, _, _, _, _, _, _⟩, rfl⟩

theorem setNumQueues_laidOut (a : QueueAdapter) : LaidOut a (setNumQueues a) := by
  rw [setNumQueues]
  refine LaidOut.trans (b := a.base) ⟨⟨_, _, _, _, _, _, _, _, _, _, _⟩, rfl⟩ ?_
  split
  · rename_i h
    exact setDcbVmdqQueues_laidOut h
  split
  · rename_i h
    exact setDcbQueues_laidOut h
  split
  · rename_i h
    exact setVmdqQueues_laidOut h
  · exact setRssQueues_laidOut _

theorem cacheRingRegister_eq (a : QueueAdapter) :
    ∃ rxRing txRing, cacheRingRegister a = { a with rxRing, txRing } := by
  unfold cacheRingRegister cacheRingDcbVmdq cacheRingDcb cacheRingVmdq cacheRingRss
  by_cases htc : a.numTc ≤ 1
  · cases a.vmdqEnabled <;> simp [htc]
  · cases a.vmdqEnabled <;> simp [htc]

theorem initInterruptScheme_laidOut (a : QueueAdapter) : LaidOut a (initInterruptScheme a) := by
  obtain ⟨rxRing, txRing, heq⟩ := cacheRingRegister_eq (setNumQueues a)
  rw [initInterruptScheme, heq]
  exact (setNumQueues_laidOut a).trans ⟨⟨_, _, _, _, _, _, _, _, _, _, _⟩, rfl⟩

end

end Ixgbe
