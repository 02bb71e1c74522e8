import Ixgbe.Library.EventRun
import Ixgbe.Queues.Pools

/-! # The queues of the PF next to those of its VFs

`ixgbe_setup_tc` refuses more classes than the VFs leave room for, `ixgbe_pci_sriov_enable` more VFs
than the classes do. -/

namespace Ixgbe

section

variable (a : QueueAdapter)

def tcLimit (mac : MacType) (numVfs : ℕ) : ℕ :=
  if mac = .mac82599EB ∧ numVfs < 16 then 8 else if numVfs < 32 then 4 else 1

def enableSriov (numVfs : ℕ) : ℤ × QueueAdapter :=
  if a.xdpProg then (eInval, a)
  else
    (0, { a with
      sriovEnabled := true
      vmdqEnabled := true
      vmdq.limit := if a.vmdq.limit = 0 then 1 else a.vmdq.limit
      vmdq.offset := BitVec.ofNat 16 numVfs
      numVfs := numVfs
      pgTcs := tcLimit a.mac numVfs })

def disableSriov (assigned : Bool) : ℤ × QueueAdapter :=
  let a := { a with numVfs := 0 }
  if !a.sriovEnabled then (0, a)
  else if assigned then (ePerm, a)
  else
    (0, { a with
      pciVfs := 0
      vmdqEnabled := if a.vmdq.limit = 1 then false else a.vmdqEnabled
      sriovEnabled := false
      vmdq.offset := 0 })

end

/-- `IXGBE_MAX_VFS_8TC`, `IXGBE_MAX_VFS_4TC` or `IXGBE_MAX_VFS_1TC`. -/
def tooManyVfs (numTc numVfs : ℕ) : Bool :=
  if numTc > 4 then numVfs > 15 else if numTc > 1 then numVfs > 31 else numVfs > 63

/-- A state around the queues, with its own part in a reconfiguration. -/
class HasQueues (α : Type) where
  queues : α → QueueAdapter
  withQueues : α → QueueAdapter → α
  withTc : α → ℕ → α
  clear : α → α
  reinit : α → α
  queues_withQueues : ∀ a q, queues (withQueues a q) = q := by intros; rfl
  withQueues_queues : ∀ a, withQueues a (queues a) = a := by intros; rfl
  withQueues_withQueues : ∀ a q q', withQueues (withQueues a q) q' = withQueues a q' := by
    intros; rfl

instance : HasQueues QueueAdapter where
  queues a := a
  withQueues _ a := a
  withTc a tc := { a with numTc := tc }
  clear := clearInterruptScheme
  reinit := initInterruptScheme

open HasQueues

section

variable {α : Type} [HasQueues α] (a : α)

def setupTc (tc : ℕ) : ℤ × α :=
  if tc > (queues a).pgTcs then (eInval, a)
  else
    let a := clear a
    if tc ≠ 0 then
      if (queues a).xdpProg then (eInval, reinit a) else (0, reinit (withTc a tc))
    else (0, reinit (withTc a 0))

def sriovReinit : α := (setupTc a (queues a).numTc).2

def pciSriovEnable (numVfs : ℕ) (assigned : Bool) : ℤ × α :=
  let q := queues a
  if !q.sriovCapable then (eOpNotSupp, a)
  else if q.numVfs = numVfs then (eInval, a)
  else if q.pciVfs ≠ 0 ∧ q.pciVfs = numVfs then (numVfs, a)
  else
    let r := if q.pciVfs ≠ 0 then disableSriov q assigned else (0, q)
    if r.1 ≠ 0 then (r.1, withQueues a r.2)
    else if tooManyVfs r.2.numTc numVfs then (ePerm, withQueues a r.2)
    else
      let r := enableSriov r.2 numVfs
      if r.1 ≠ 0 then (r.1, withQueues a r.2)
      else
        let a := sriovReinit (withQueues a r.2)
        (numVfs, withQueues a { queues a with pciVfs := numVfs })

def pciSriovDisable (assigned : Bool) : ℤ × α :=
  let q := queues a
  if q.numVfs = 0 ∧ q.pciVfs = 0 then (eInval, a)
  else
    let r := disableSriov q assigned
    let a := withQueues a r.2
    -- only if the flags changed
    if r.1 = 0 ∧ (r.2.sriovEnabled, r.2.vmdqEnabled) ≠ (q.sriovEnabled, q.vmdqEnabled) then
      (r.1, sriovReinit a)
    else (r.1, a)

end

inductive QueueEvent
  | setupTc (tc : ℕ)
  | enable (numVfs : ℕ) (assigned : Bool)
  | disable (assigned : Bool)
  deriving DecidableEq, Repr

/-- With the result of the last call if that was `ixgbe_pci_sriov_enable`. -/
structure QueueRun where
  adapter : QueueAdapter
  granted : Option ℤ

def queueStep (s : QueueRun) : QueueEvent → QueueRun
  | .setupTc tc => ⟨(setupTc s.adapter tc).2, none⟩
  | .enable numVfs assigned =>
    let r := pciSriovEnable s.adapter numVfs assigned
    ⟨r.2, some r.1⟩
  | .disable assigned => ⟨(pciSriovDisable s.adapter assigned).2, none⟩

/-- They are different, exist, and are not of `numVfs` pools. -/
def Apart (q numVfs : ℕ) (l : List U8) : Prop :=
  l.Nodup ∧ ∀ i ∈ l, i.toNat < 128 ∧ ¬ i.toNat < numVfs * q

def QueueRun.PfApart (s : QueueRun) : Prop :=
  ∀ n : ℕ, 0 < n → s.granted = some (n : ℤ) →
    Apart s.adapter.vmdq.poolSize n s.adapter.rxRing ∧
      Apart s.adapter.vmdq.poolSize n s.adapter.txRing

/-- What `ixgbe_sw_init` leaves at most. -/
def maxTcs : MacType → ℕ
  | .mac82599EB => 8
  | _ => 4

/-- No VFs, one pool, no traffic class beyond the limit. -/
structure QueueAdapter.Probed (a : QueueAdapter) : Prop where
  pgTcs_le : a.pgTcs ≤ maxTcs a.mac
  numTc_le : a.numTc ≤ a.pgTcs
  limit : a.vmdq.limit = 0 ∨ a.vmdq.limit = 1
  pciVfs : a.pciVfs = 0

def TcFits (numTc v : ℕ) : Prop :=
  (numTc ≤ 1 ∧ v ≤ 63) ∨ (numTc ≤ 4 ∧ v ≤ 31) ∨ (numTc ≤ 8 ∧ v ≤ 15)

theorem toNat_one_add {v : ℕ} (hv : v ≤ 63) : (1 + BitVec.ofNat 16 v : U16).toNat = v + 1 := by
  have h1 : BitVec.toNat (1 : U16) = 1 := rfl
  rw [BitVec.toNat_add, BitVec.toNat_ofNat, h1]
  omega

theorem pools_left {v : ℕ} {c : U16} (hv : v < c.toNat) (hc : c.toNat ≤ 64) :
    minU16 (1 + BitVec.ofNat 16 v) c - BitVec.ofNat 16 v = 1 := by
  have h1 := toNat_one_add (v := v) (by omega)
  have hmin : minU16 (1 + BitVec.ofNat 16 v) c = 1 + BitVec.ofNat 16 v := by
    -- the cap is the sum itself when all pools are in use
    rw [minU16, h1]
    split
    case isTrue => rfl
    case isFalse h =>
      apply BitVec.eq_of_toNat_eq
      omega
  rw [hmin, add_sub_cancel_right]

/-- The rings of the PF are queues of pool `v`, in one of the pool modes. -/
def PfInPool (a : QueueAdapter) (v : ℕ) : Prop := ∃ m : PoolMode, a.vmdq.mask = m.mask ∧
  (v + 1) * m.queues ≤ 128 ∧ InPool m.queues v a.rxRing ∧ InPool m.queues v a.txRing

section

variable {α : Type} [HasQueues α]

theorem setupTc_cases (a : α) (tc : ℕ) :
    (tc > (queues a).pgTcs ∧ setupTc a tc = (eInval, a)) ∨
    (tc ≤ (queues a).pgTcs ∧
      ((queues (clear a)).xdpProg = true ∧ setupTc a tc = (eInval, reinit (clear a)) ∨
      (tc ≠ 0 → (queues (clear a)).xdpProg = false) ∧
        setupTc a tc = (0, reinit (withTc (clear a) tc)))) := by
  rw [setupTc]
  by_cases htc : tc > (queues a).pgTcs
  · rw [if_pos htc]
    exact .inl ⟨htc, rfl⟩
  rw [if_neg htc]
  refine .inr ⟨Nat.not_lt.mp htc, ?_⟩
  by_cases h0 : tc ≠ 0
  · rw [if_pos h0]
    cases (queues (clear a)).xdpProg with
    | true => exact .inl ⟨rfl, rfl⟩
    | false => exact .inr ⟨fun _ => rfl, rfl⟩
  · rw [if_neg h0]
    obtain rfl := not_not.mp h0
    exact .inr ⟨fun h => absurd rfl h, rfl⟩

theorem disableSriov_cases (a : QueueAdapter) (assigned : Bool) :
    (∃ err, disableSriov a assigned = (err, { a with numVfs := 0 }) ∧ (err = 0 ∨ err = ePerm)) ∨
    ∃ vmdqEnabled : Bool, (vmdqEnabled = true → a.vmdqEnabled = true) ∧
      disableSriov a assigned = (0, { a with
      numVfs := 0
      pciVfs := 0
      vmdqEnabled := vmdqEnabled
      sriovEnabled := false
      vmdq.offset := 0 }) := by
  rw [disableSriov]
  cases a.sriovEnabled with
  | false => exact .inl ⟨0, rfl, .inl rfl⟩
  | true =>
    cases assigned with
    | false =>
      refine .inr ⟨_, fun h => ?_, rfl⟩
      -- the flag is cleared or kept
      split at h
      · cases h
      · exact h
    | true => exact .inl ⟨ePerm, rfl, .inr rfl⟩

variable {a : α} {P : α → Prop} {numVfs : ℕ} {assigned : Bool}

theorem pciSriovDisable_inv
    (hdisable : ∀ b, P b → P (withQueues b (disableSriov (queues b) assigned).2))
    (hreinit : ∀ b, P b → P (sriovReinit b)) (h : P a) : P (pciSriovDisable a assigned).2 := by
  rw [pciSriovDisable]
  dsimp only
  split_ifs
  · exact h
  · exact hreinit _ (hdisable a h)
  · exact hdisable a h

/-- **Invariant rule** for `ixgbe_pci_sriov_enable`, with what `Q` says of its result. -/
theorem pciSriovEnable_rule {Q : ℤ → α → Prop}
    (hdisable : ∀ b, P b → P (withQueues b (disableSriov (queues b) assigned).2))
    (hfail : ∀ err < 0, ∀ b, P b → Q err b) (hsame : (queues a).pciVfs = numVfs → Q numVfs a)
    (henable : ∀ b, P b → tooManyVfs (queues b).numTc numVfs = false →
      (queues b).xdpProg = false →
        let c := sriovReinit (withQueues b (enableSriov (queues b) numVfs).2)
        Q numVfs (withQueues c { queues c with pciVfs := numVfs })) (h : P a) :
    Q (pciSriovEnable a numVfs assigned).1 (pciSriovEnable a numVfs assigned).2 := by
  rw [pciSriovEnable]
  dsimp only
  -- other VFs are disabled first, which fails while one is assigned to a guest
  have hdis : P (withQueues a (if (queues a).pciVfs ≠ 0 then disableSriov (queues a) assigned
      else (0, queues a)).2) := by
    split
    · exact hdisable a h
    · rw [withQueues_queues]
      exact h
  have herr : (if (queues a).pciVfs ≠ 0 then disableSriov (queues a) assigned
      else (0, queues a)).1 = 0 ∨ (if (queues a).pciVfs ≠ 0 then disableSriov (queues a) assigned
      else (0, queues a)).1 = ePerm := by
    split
    · rcases disableSriov_cases (queues a) assigned with ⟨err, heq, herr⟩ | ⟨_, -, heq⟩
      · rw [heq]
        exact herr
      · rw [heq]
        exact .inl rfl
    · exact .inl rfl
  generalize (if (queues a).pciVfs ≠ 0 then disableSriov (queues a) assigned
    else (0, queues a)) = r at hdis herr ⊢
  have hen := henable _ hdis
  simp only [queues_withQueues, withQueues_withQueues] at hen
  split_ifs with hcap hnum hpre hr hmany hok
  · exact hfail eOpNotSupp (by decide) a h
  · exact hfail eInval (by decide) a h
  · exact hsame hpre.2
  · exact hfail _ (by rw [herr.resolve_left hr]; decide) _ hdis
  · exact hfail ePerm (by decide) _ hdis
  · by_cases hp : r.2.xdpProg = true
    · rw [enableSriov, if_pos hp]
      exact hfail eInval (by decide) _ hdis
    · rw [enableSriov, if_neg hp] at hok
      exact absurd rfl hok
  · refine hen (Bool.eq_false_iff.mpr hmany) (Bool.eq_false_iff.mpr fun hp => hok ?_)
    rw [enableSriov, if_pos hp]
    exact (by decide : eInval ≠ 0)

end

section

variable {a : QueueAdapter} {v : ℕ}

theorem inPool_cacheRegIdx (m : PoolMode) {sel : U16} (hsel : SelectsPlace sel m.queues)
    {per : ℕ} (hper : per ≤ m.queues) (hv : (v + 1) * m.queues ≤ 128) :
    InPool m.queues v
      (cacheRegIdx sel m.mask per (1 * per) (BitVec.ofNat 16 v * alignMask 1 (~~~m.mask))) := by
  have hfirst : BitVec.ofNat 16 v * alignMask 1 (~~~m.mask) =
      BitVec.ofNat 16 (v * m.queues + 0) := by
    rw [alignMask_mode, Nat.add_zero, BitVec.ofNat_mul]
  rw [hfirst, Nat.one_mul, cacheRegIdx_eq hsel hper hv per 0 (Nat.zero_add per).le]
  exact inPool_map hper hv

theorem pfInPool_dcb (htc : 1 < a.numTc) (hle : a.numTc ≤ 8) (hvmdq : a.vmdqEnabled = true)
    (hlimit : a.vmdq.limit = 1) (hoff : a.vmdq.offset = BitVec.ofNat 16 v)
    (hv : v < (dcbMode a.numTc).count.toNat) : PfInPool (initInterruptScheme a) v := by
  have hcount : ∀ m : PoolMode, m.count.toNat ≤ 64 ∧ m.count.toNat * m.queues = 128 := fun m => by
    cases m <;> decide
  obtain ⟨h64, h128⟩ := hcount (dcbMode a.numTc)
  have hroom : (v + 1) * (dcbMode a.numTc).queues ≤ 128 := by
    rw [← h128]
    exact Nat.mul_le_mul_right _ hv
  -- one pool behind those of the VFs
  have hpools :
      minU16 (a.vmdq.limit + a.vmdq.offset) (dcbMode a.numTc).count - a.vmdq.offset = 1 := by
    rw [hlimit, hoff, pools_left hv h64]
  have hset := setDcbVmdqQueues_eq (a := a.base) htc hvmdq
  have hinit : initInterruptScheme a = cacheRingRegister (a.base.withPools (dcbMode a.numTc)
      (minU16 (a.vmdq.limit + a.vmdq.offset) (dcbMode a.numTc).count - a.vmdq.offset)
      a.numTc 1 0) := by
    rw [initInterruptScheme, setNumQueues, ← QueueAdapter.base, hset]
    rfl
  have hin := inPool_cacheRegIdx (dcbMode a.numTc) (PoolMode.selectsPlace _) (le_queues_dcbMode hle)
    hroom
  rw [← hoff] at hin
  have hcache := cacheRingRegister_dcb (a := a.base.withPools (dcbMode a.numTc) 1 a.numTc 1 0) htc
    hvmdq
  rw [hinit, hpools, hcache]
  exact ⟨dcbMode a.numTc, rfl, hroom, hin, hin⟩

theorem totalPools_eq (hlimit : a.vmdq.limit = 1) (hoff : a.vmdq.offset = BitVec.ofNat 16 v)
    (hv : v ≤ 63) : totalPools a = 1 + BitVec.ofNat 16 v := by
  rw [totalPools, hlimit, hoff, minU16, toNat_one_add hv]
  exact if_neg (by change ¬ 64 < v + 1; omega)

theorem pfInPool_vmdq (htc : a.numTc ≤ 1) (hvmdq : a.vmdqEnabled = true)
    (hlimit : a.vmdq.limit = 1) (hoff : a.vmdq.offset = BitVec.ofNat 16 v) (hv : v ≤ 63) :
    PfInPool (initInterruptScheme a) v := by
  have htotal := totalPools_eq hlimit hoff hv
  have hroom : (v + 1) * (vmdqMode (totalPools a)).queues ≤ 128 := by
    rw [htotal, vmdqMode, toNat_one_add hv]
    split
    · change (v + 1) * 2 ≤ 128
      omega
    · change (v + 1) * 4 ≤ 128
      omega
  have hpools : totalPools a - a.vmdq.offset = 1 := by rw [htotal, hoff, add_sub_cancel_right]
  have hset := setVmdqQueues_eq (a := a.base) hvmdq
  have hinit : initInterruptScheme a = cacheRingRegister (a.base.withPools (vmdqMode (totalPools a))
      (totalPools a - a.vmdq.offset) ((vmdqMode (totalPools a)).rssQueues a.rss.limit).toNat
      ((vmdqMode (totalPools a)).rssQueues a.rss.limit) (vmdqMode (totalPools a)).rssMask) := by
    rw [initInterruptScheme, setNumQueues, ← QueueAdapter.base, setDcbVmdqQueues, setDcbQueues,
      hset]
    simp only [show a.base.numTc = a.numTc from rfl, if_pos htc]
    rfl
  -- the transmit loop selects by another mask, which has the same effect
  have hrss : SelectsPlace (vmdqMode (totalPools a)).rssMask (vmdqMode (totalPools a)).queues := by
    rw [vmdqMode]
    split <;> decide
  have hle := rssQueues_le_queues (totalPools a) a.rss.limit
  have hrx := inPool_cacheRegIdx _ (PoolMode.selectsPlace _) hle hroom
  have htx := inPool_cacheRegIdx _ hrss hle hroom
  rw [← hoff] at hrx htx
  have hcache := cacheRingRegister_vmdq (a := a.base.withPools (vmdqMode (totalPools a)) 1
    ((vmdqMode (totalPools a)).rssQueues a.rss.limit).toNat
    ((vmdqMode (totalPools a)).rssQueues a.rss.limit) (vmdqMode (totalPools a)).rssMask) htc hvmdq
  rw [hinit, hpools, hcache]
  exact ⟨vmdqMode (totalPools a), rfl, hroom, hrx, htx⟩

theorem pfInPool_init (hvmdq : a.vmdqEnabled = true) (hlimit : a.vmdq.limit = 1)
    (hoff : a.vmdq.offset = BitVec.ofNat 16 v) (hfit : TcFits a.numTc v) :
    PfInPool (initInterruptScheme a) v := by
  by_cases htc : a.numTc ≤ 1
  · refine pfInPool_vmdq htc hvmdq hlimit hoff ?_
    rcases hfit with h | h | h <;> omega
  · refine pfInPool_dcb (by omega) (by rcases hfit with h | h | h <;> omega) hvmdq hlimit hoff ?_
    rw [dcbMode]
    split
    · change v < 16
      rcases hfit with h | h | h <;> omega
    · change v < 32
      rcases hfit with h | h | h <;> omega

theorem PfInPool.apart (h : PfInPool a v) :
    Apart a.vmdq.poolSize v a.rxRing ∧ Apart a.vmdq.poolSize v a.txRing := by
  obtain ⟨m, hmask, hroom, hrx, htx⟩ := h
  rw [poolSize_mode hmask]
  exact ⟨⟨hrx.1, fun i hi => ⟨(hrx.2 i hi).2.trans_le hroom, hrx.not_before hi⟩⟩,
    htx.1, fun i hi => ⟨(htx.2 i hi).2.trans_le hroom, htx.not_before hi⟩⟩

/-- The settings that the VFs of the PCI core rest on. -/
structure VfSettings (a : QueueAdapter) (v : ℕ) : Prop where
  vmdq : a.vmdqEnabled = true
  limit : a.vmdq.limit = 1
  offset : a.vmdq.offset = BitVec.ofNat 16 v
  le : v ≤ 63
  pgTcs : a.pgTcs = tcLimit a.mac v

/-- The traffic classes stay within the limits, and those of the VFs. -/
structure SettingsInv (a : QueueAdapter) : Prop where
  pgTcs_le : a.pgTcs ≤ maxTcs a.mac
  numTc_le : a.numTc ≤ a.pgTcs
  limit : a.vmdq.limit = 0 ∨ a.vmdq.limit = 1
  vfs : a.pciVfs ≠ 0 → VfSettings a a.pciVfs

/-- With VFs, the rings of the PF are in the pool behind them. -/
structure QueueInv (a : QueueAdapter) : Prop extends SettingsInv a where
  rings : a.pciVfs ≠ 0 → PfInPool a a.pciVfs

theorem tcLimit_le (mac : MacType) (v : ℕ) : tcLimit mac v ≤ maxTcs mac := by
  rw [tcLimit]
  cases mac <;> (repeat' split) <;> simp_all [maxTcs]

theorem tcFits_of_le {mac : MacType} {numTc : ℕ} (hv : v ≤ 63) (h : numTc ≤ tcLimit mac v) :
    TcFits numTc v := by
  rw [tcLimit] at h
  rw [TcFits]
  split at h
  · omega
  · split at h <;> omega

theorem le_tcLimit_of_admitted {mac : MacType} {numTc : ℕ} (hle : numTc ≤ maxTcs mac)
    (h : tooManyVfs numTc v = false) : numTc ≤ tcLimit mac v ∧ v ≤ 63 := by
  rw [tooManyVfs] at h
  rw [tcLimit]
  split at h
  · have hv := of_decide_eq_false h
    -- more than four classes exist on the 82599 only
    have hmac : mac = .mac82599EB := by
      cases mac with
      | mac82599EB => rfl
      | _ =>
        have : numTc ≤ 4 := hle
        omega
    rw [if_pos ⟨hmac, by omega⟩]
    subst hmac
    have : numTc ≤ 8 := hle
    omega
  · split at h
    · have hv := of_decide_eq_false h
      split
      · omega
      · rw [if_pos (by omega)]
        omega
    · have hv := of_decide_eq_false h
      split
      · omega
      · split <;> omega

def QueueAdapter.settings (a : QueueAdapter) : MacType × Bool × U16 × U16 × ℕ × ℕ × ℕ :=
  (a.mac, a.vmdqEnabled, a.vmdq.limit, a.vmdq.offset, a.pgTcs, a.numTc, a.pciVfs)

theorem initInterruptScheme_settings (a : QueueAdapter) :
    (initInterruptScheme a).settings = a.settings := by
  obtain ⟨l, heq⟩ := initInterruptScheme_laidOut a
  rw [heq]
  rfl

theorem SettingsInv.congr {b : QueueAdapter} (h : SettingsInv a) (hb : b.settings = a.settings) :
    SettingsInv b := by
  simp only [QueueAdapter.settings, Prod.mk.injEq] at hb
  obtain ⟨hmac, hvmdq, hlimit, hoff, hpg, htc, hpci⟩ := hb
  refine ⟨?_, ?_, ?_, fun hne => ?_⟩
  · rw [hpg, hmac]
    exact h.pgTcs_le
  · rw [hpg, htc]
    exact h.numTc_le
  · rw [hlimit]
    exact h.limit
  · rw [hpci] at hne ⊢
    have hv := h.vfs hne
    exact ⟨hvmdq ▸ hv.vmdq, hlimit ▸ hv.limit, hoff ▸ hv.offset, hv.le, by rw [hpg, hmac, hv.pgTcs]⟩

theorem VfSettings.pfInPool (h : VfSettings a v) (htc : a.numTc ≤ a.pgTcs) :
    PfInPool (initInterruptScheme a) v :=
  pfInPool_init h.vmdq h.limit h.offset (tcFits_of_le h.le (h.pgTcs ▸ htc))

theorem SettingsInv.init (h : SettingsInv a) : QueueInv (initInterruptScheme a) := by
  have hset := initInterruptScheme_settings a
  refine ⟨h.congr hset, fun hne => ?_⟩
  have hpci : (initInterruptScheme a).pciVfs = a.pciVfs :=
    congrArg (fun t => t.2.2.2.2.2.2) hset
  rw [hpci] at hne ⊢
  exact (h.vfs hne).pfInPool h.numTc_le

theorem SettingsInv.clear (h : SettingsInv a) {tc : ℕ} (htc : tc ≤ a.pgTcs) :
    SettingsInv { clearInterruptScheme a with numTc := tc } :=
  ⟨h.pgTcs_le, htc, h.limit, fun hne =>
    have hv := h.vfs hne
    { hv with }⟩

theorem QueueInv.setupTc (h : QueueInv a) (tc : ℕ) : QueueInv (setupTc a tc).2 := by
  rcases setupTc_cases a tc with ⟨-, heq⟩ | ⟨htc, ⟨-, heq⟩ | ⟨-, heq⟩⟩
  · rw [heq]
    exact h
  · rw [heq]
    exact (h.toSettingsInv.clear h.numTc_le).init
  · rw [heq]
    exact (h.toSettingsInv.clear htc).init

theorem sriovReinit_eq (htc : a.numTc ≤ a.pgTcs) :
    sriovReinit a = initInterruptScheme (clearInterruptScheme a) := by
  rcases setupTc_cases a a.numTc with ⟨hgt, -⟩ | ⟨-, ⟨-, heq⟩ | ⟨-, heq⟩⟩
  · exact absurd htc (Nat.not_le.mpr hgt)
  · exact congrArg Prod.snd heq
  · exact congrArg Prod.snd heq

theorem QueueInv.disableSriov (h : QueueInv a) (assigned : Bool) :
    QueueInv (disableSriov a assigned).2 := by
  rcases disableSriov_cases a assigned with ⟨err, heq, -⟩ | ⟨vmdqEnabled, -, heq⟩
  · rw [heq]
    refine ⟨⟨h.pgTcs_le, h.numTc_le, h.limit, fun hne => ?_⟩, h.rings⟩
    have hv := h.vfs hne
    exact { hv with }
  · rw [heq]
    exact ⟨⟨h.pgTcs_le, h.numTc_le, h.limit, fun hne => absurd rfl hne⟩, fun hne => absurd rfl hne⟩

theorem VfSettings.granted (h : VfSettings a v) (htc : a.numTc ≤ a.pgTcs) :
    QueueInv { initInterruptScheme a with pciVfs := v } := by
  have hset := initInterruptScheme_settings a
  simp only [QueueAdapter.settings, Prod.mk.injEq] at hset
  obtain ⟨hmac, hvmdq, hlimit, hoff, hpg, hnum, -⟩ := hset
  refine ⟨⟨?_, ?_, .inr ?_, fun _ => ⟨?_, ?_, ?_, h.le, ?_⟩⟩, fun _ => h.pfInPool htc⟩
  · change (initInterruptScheme a).pgTcs ≤ maxTcs (initInterruptScheme a).mac
    rw [hpg, hmac, h.pgTcs]
    exact tcLimit_le ..
  · change (initInterruptScheme a).numTc ≤ (initInterruptScheme a).pgTcs
    rw [hnum, hpg]
    exact htc
  · exact hlimit.trans h.limit
  · exact hvmdq.trans h.vmdq
  · exact hlimit.trans h.limit
  · exact hoff.trans h.offset
  · change (initInterruptScheme a).pgTcs = tcLimit (initInterruptScheme a).mac v
    rw [hpg, hmac, h.pgTcs]

theorem QueueInv.enableSriov (h : QueueInv a) (hadm : tooManyVfs a.numTc v = false)
    (hp : a.xdpProg = false) : VfSettings (enableSriov a v).2 v ∧
      (enableSriov a v).2.numTc ≤ (enableSriov a v).2.pgTcs := by
  obtain ⟨htc, hv⟩ := le_tcLimit_of_admitted (h.numTc_le.trans h.pgTcs_le) hadm
  rw [Ixgbe.enableSriov, if_neg (hp ▸ Bool.false_ne_true)]
  -- only the limit of the pools is left, which is raised from 0 to 1
  refine ⟨⟨rfl, ?_, rfl, hv, rfl⟩, htc⟩
  change (if a.vmdq.limit = 0 then (1 : U16) else a.vmdq.limit) = 1
  rcases h.limit with hl | hl
  · rw [if_pos hl]
  · rw [hl]
    decide

theorem QueueInv.enable (h : QueueInv a) (n : ℕ) (assigned : Bool) :
    QueueInv (pciSriovEnable a n assigned).2 ∧ ((pciSriovEnable a n assigned).1 < 0 ∨
      (pciSriovEnable a n assigned).1 = n ∧ (pciSriovEnable a n assigned).2.pciVfs = n) := by
  refine pciSriovEnable_rule (P := QueueInv)
    (Q := fun err b => QueueInv b ∧ (err < 0 ∨ err = n ∧ b.pciVfs = n))
    (fun b hb => hb.disableSriov assigned) (fun err herr b hb => ⟨hb, .inl herr⟩)
    (fun hpci => ⟨h, .inr ⟨rfl, hpci⟩⟩) (fun b hb hadm hp => ?_) h
  obtain ⟨hset, htc⟩ := hb.enableSriov hadm hp
  refine ⟨?_, .inr ⟨rfl, rfl⟩⟩
  change QueueInv { sriovReinit (Ixgbe.enableSriov b n).2 with pciVfs := n }
  rw [sriovReinit_eq htc]
  exact VfSettings.granted { hset with } htc

def QueueRun.Inv (s : QueueRun) : Prop := QueueInv s.adapter ∧ s.PfApart

theorem QueueRun.Inv.step {s : QueueRun} (h : s.Inv) (e : QueueEvent) : (queueStep s e).Inv := by
  cases e with
  | setupTc tc => exact ⟨h.1.setupTc tc, fun _ _ hg => nomatch hg⟩
  | disable assigned =>
    exact ⟨pciSriovDisable_inv (fun b hb => hb.disableSriov assigned) (fun b hb => hb.setupTc _)
      h.1, fun _ _ hg => nomatch hg⟩
  | enable numVfs assigned =>
    obtain ⟨hinv, hres⟩ := h.1.enable numVfs assigned
    refine ⟨hinv, fun n hn hg => ?_⟩
    have hg : (pciSriovEnable s.adapter numVfs assigned).1 = n := Option.some.inj hg
    rcases hres with hneg | ⟨hret, hpci⟩
    · omega
    · -- the VFs that were asked for are those of the PCI core
      have hn' : (pciSriovEnable s.adapter numVfs assigned).2.pciVfs = n := by omega
      have hrings := hinv.rings (by omega)
      rw [hn'] at hrings
      exact hrings.apart

/-- **PF and VF queues never overlap**: the rings of the PF have different queues, which exist and
are not in the VFs' pools. -/
theorem pf_queues_apart (ha : a.Probed) (es : List QueueEvent) :
    EventRun.After queueStep QueueRun.PfApart ⟨a, none⟩ es := by
  have hstart : QueueRun.Inv ⟨a, none⟩ :=
    ⟨⟨⟨ha.pgTcs_le, ha.numTc_le, ha.limit, fun hne => absurd ha.pciVfs hne⟩,
      fun hne => absurd ha.pciVfs hne⟩, fun _ _ hg => nomatch hg⟩
  have hstep : ∀ (s : QueueRun) (e : QueueEvent), s.Inv → True → (queueStep s e).Inv :=
    fun _ e h _ => h.step e
  exact EventRun.after_of_inv hstep (fun _ h => h.2) hstart
    (EventRun.along_of_forall _ _ fun _ _ => trivial)

end

def probedAdapter : QueueAdapter where
  mac := .mac82599EB
  sriovCapable := true
  sriovEnabled := false
  vmdqEnabled := false
  xdpProg := false
  atrSampleRate := 0
  devTxQueues := 64
  vmdq := ⟨0, 0, 0, 0⟩
  rss := ⟨4, 0, 0, 0⟩
  fdir := ⟨4, 0, 0, 0⟩
  pgTcs := 8
  numTc := 0
  numVfs := 0
  pciVfs := 0
  numRxPools := 0
  numRxQueuesPerPool := 0
  numRxQueues := 0
  numTxQueues := 0
  rxRing := []
  txRing := []

theorem pf_queues_apart_ten_vfs : EventRun.After queueStep QueueRun.PfApart ⟨probedAdapter, none⟩
    [.setupTc 8, .enable 10 false, .setupTc 4, .enable 20 false, .disable false] :=
  pf_queues_apart ⟨by decide, by decide, .inl rfl, rfl⟩ _

end Ixgbe
