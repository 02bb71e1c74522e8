import Ixgbe.Queues.Vectors
import Ixgbe.Xdp.Setup

/-! # The XDP rings in use

With a program there is a ring for each CPU. But `ixgbe_xdp_setup` visits one for each *receive*
queue, and takes the first program whatever the configuration is. -/

open EventRun BitVec List

namespace Ixgbe

def XdpAdapter.rssQueues (a : XdpAdapter) : ℕ :=
  if a.rss.limit.toNat > 1 ∧ a.atrSampleRate ≠ 0 then a.fdir.limit.toNat else a.rss.limit.toNat

section

variable {a : QueueAdapter}

theorem setNumQueues_of_numTc_le (htc : a.numTc ≤ 1) :
    setNumQueues a = (setVmdqQueues a.base).getD (setRssQueues a.base) := by
  have hdcbVmdq : setDcbVmdqQueues a.base = none := if_pos htc
  have hdcb : setDcbQueues a.base = none := if_pos htc
  rw [setNumQueues, ← QueueAdapter.base, hdcbVmdq, hdcb]
  cases setVmdqQueues a.base <;> rfl

theorem setRssQueues_numRxQueues (a : QueueAdapter) : (setRssQueues a).numRxQueues =
    if a.rss.limit.toNat > 1 ∧ a.atrSampleRate ≠ 0 then a.fdir.limit.toNat
    else a.rss.limit.toNat := by
  rw [setRssQueues]
  by_cases hsampled : a.rss.limit.toNat > 1 ∧ a.atrSampleRate ≠ 0
  · simp only [if_pos hsampled]
  · simp only [if_neg hsampled]

theorem totalPools_sub_pos (hlimit : a.vmdq.limit ≠ 0) (hle : a.vmdq.limit.toNat ≤ 64)
    (hoff : a.vmdq.offset.toNat ≤ 63) : 0 < (totalPools a - a.vmdq.offset).toNat := by
  have hpos : a.vmdq.limit.toNat ≠ 0 := fun h => hlimit (eq_of_toNat_eq h)
  have hsum : (a.vmdq.limit + a.vmdq.offset).toNat = a.vmdq.limit.toNat + a.vmdq.offset.toNat := by
    exact Nat.mod_eq_of_lt (by omega)
  have h64 : maxVmdqIndices.toNat = 64 := rfl
  have htotal : a.vmdq.offset.toNat < (totalPools a).toNat := by
    rw [totalPools, minU16]
    split <;> omega
  rw [toNat_sub_of_le (le_def.mpr htotal.le)]
  omega

theorem PoolMode.rssQueues_pos (m : PoolMode) {limit : U16} (h : limit ≠ 0) :
    0 < (m.rssQueues limit).toNat := by
  have hpos : limit.toNat ≠ 0 := fun h0 => h (eq_of_toNat_eq h0)
  cases m with
  | pools64 =>
    change 0 < (minU16 limit 2).toNat
    rw [minU16]
    split
    · omega
    · decide
  | _ =>
    change 0 < BitVec.toNat
      (if limit.toNat > 3 then (4 : U16) else if limit.toNat > 1 then 2 else 1)
    split
    · decide
    · split <;> decide

end

namespace XdpAdapter

def vectors (a : XdpAdapter) (q : ℕ) : VectorAdapter :=
  freshVectors q a.numRxQueues a.numTxQueues a.numXdpQueues

theorem xdpRing_isSome_iff (a : XdpAdapter) {q : ℕ} (hq : 1 ≤ q) (i : ℕ) :
    ((allocQVectors (fun _ => true) (a.vectors q)).2.xdpRing i).isSome = true ↔
      i < a.numXdpQueues := by
  rcases allocQVectors_cases (fun _ => true) (a.vectors q) with ⟨hrun, -⟩ | ⟨_, -, -, -, hfail, -⟩
  · rw [hrun]
    exact ((a.vectors q).partitioned_placed hq).ring_isSome_iff .xdp rfl
  · cases hfail

/-- What every configuration of a probed adapter has. -/
structure Settings (a : XdpAdapter) : Prop where
  dcb : a.dcbEnabled = true ↔ a.numTc ≠ 0
  /-- `ixgbe_sw_init` enables the lock when the CPUs have to share rings. -/
  key : a.xdpLockingKey = true ↔ maxXdpQs < a.nrCpuIds
  limit : a.vmdqEnabled = true → a.vmdq.limit ≠ 0
  limit_le : a.vmdq.limit.toNat ≤ 64
  offset_le : a.vmdq.offset.toNat ≤ 63
  rss : a.rss.limit ≠ 0

/-- The program excludes traffic classes and pools. -/
def Exclusive (a : XdpAdapter) : Prop :=
  a.xdpProg = true → a.numTc = 0 ∧ a.vmdqEnabled = false

/-- An attached program has its rings, and no other program is run. -/
structure Sound (a : XdpAdapter) : Prop extends Settings a where
  exclusive : a.Exclusive
  numXdpQueues : a.xdpProg = true → a.numXdpQueues = min maxXdpQs a.nrCpuIds
  rxProg : true ∈ a.rxProg → a.xdpProg = true

/-- VMDq and VFs may have been enabled by module parameters. -/
structure Probed (a : XdpAdapter) : Prop extends Settings a where
  xdpProg : a.xdpProg = false
  rxProg : true ∉ a.rxProg

variable {a : XdpAdapter}

theorem Probed.sound (h : a.Probed) : a.Sound where
  toSettings := h.toSettings
  exclusive hp := absurd (h.xdpProg ▸ hp) Bool.false_ne_true
  numXdpQueues hp := absurd (h.xdpProg ▸ hp) Bool.false_ne_true
  rxProg hr := absurd hr h.rxProg

theorem Settings.determineXdpQIdx_lt (h : a.Settings) {cpu : ℕ} (hcpu : cpu < a.nrCpuIds) :
    a.determineXdpQIdx cpu < min maxXdpQs a.nrCpuIds := by
  rw [determineXdpQIdx]
  split
  case isTrue hkey =>
    rw [min_eq_left (h.key.mp hkey).le]
    exact Nat.mod_lt cpu (by decide)
  case isFalse hkey =>
    exact lt_min (hcpu.trans_le (Nat.not_lt.mp fun hlt => hkey (h.key.mpr hlt))) hcpu

theorem reinit_eq (a : XdpAdapter) : ∃ l : QueueLayout,
    l.numRxQueues = (Ixgbe.setNumQueues a.toQueueAdapter).numRxQueues ∧
    a.reinit = { a with
      toQueueAdapter := a.toQueueAdapter.withLayout l
      numXdpQueues := if a.numTc > 1 ∨ a.vmdqEnabled then 0 else a.xdpQueues
      rxProg := replicate l.numRxQueues (a.running && a.xdpProg) } := by
  obtain ⟨l, hl⟩ := setNumQueues_laidOut a.toQueueAdapter
  obtain ⟨rxRing, txRing, hc⟩ := cacheRingRegister_eq (a.toQueueAdapter.withLayout l)
  refine ⟨{ l with rxRing, txRing }, ?_, ?_⟩
  · rw [hl]
    rfl
  · rw [reinit, initInterruptScheme, setNumQueues]
    rw [hl, hc]
    cases hr : a.running
    · rfl
    · rfl

theorem Settings.reinit_of_vmdq (h : a.Settings) (htc : a.numTc ≤ 1) (hv : a.vmdqEnabled = true) :
    0 < a.reinit.numRxQueues ∧ a.reinit.numXdpQueues = 0 := by
  obtain ⟨l, hl, heq⟩ := a.reinit_eq
  rw [setNumQueues_of_numTc_le htc, setVmdqQueues_eq (show a.base.vmdqEnabled = true from hv)] at hl
  rw [heq]
  refine ⟨?_, if_pos (.inr hv)⟩
  change 0 < l.numRxQueues
  rw [hl]
  exact Nat.mul_pos (totalPools_sub_pos (h.limit hv) h.limit_le h.offset_le)
    (PoolMode.rssQueues_pos _ h.rss)

theorem reinit_of_rss (htc : a.numTc ≤ 1) (hv : a.vmdqEnabled = false) :
    a.reinit.numRxQueues = a.rssQueues ∧ a.reinit.numXdpQueues = a.xdpQueues := by
  obtain ⟨l, hl, heq⟩ := a.reinit_eq
  have hnone : setVmdqQueues a.base = none := if_pos (congrArg not hv)
  rw [setNumQueues_of_numTc_le htc, hnone] at hl
  rw [heq]
  refine ⟨hl.trans (setRssQueues_numRxQueues _), if_neg ?_⟩
  rw [hv]
  simp [htc]

theorem Settings.reinit_visited_iff (h : a.Settings) (htc : a.numTc ≤ 1) (hp : a.xdpProg = true) :
    (∀ i ∈ range a.reinit.numRxQueues, i < a.reinit.numXdpQueues) ↔
      a.vmdqEnabled = false ∧ a.rssQueues ≤ min maxXdpQs a.nrCpuIds := by
  simp only [mem_range]
  rw [forall_lt_iff_le]
  cases hv : a.vmdqEnabled with
  | true =>
    obtain ⟨hpos, hzero⟩ := h.reinit_of_vmdq htc hv
    rw [hzero]
    exact ⟨fun hle => absurd hle (Nat.not_le.mpr hpos),
      fun hc => absurd hc.1.symm Bool.false_ne_true⟩
  | false =>
    obtain ⟨hrx, hxdp⟩ := reinit_of_rss htc hv
    rw [hrx, hxdp, xdpQueues, if_pos hp]
    exact (and_iff_right rfl).symm

theorem Settings.reinit (h : a.Settings) (hx : a.Exclusive) : a.reinit.Sound := by
  obtain ⟨l, -, heq⟩ := a.reinit_eq
  rw [heq]
  refine ⟨{ h with }, hx, fun hp => ?_, fun hr => ?_⟩
  · obtain ⟨htc, hv⟩ := hx hp
    have hmode : ¬ (a.numTc > 1 ∨ a.vmdqEnabled = true) := by
      rw [htc, hv]
      decide
    rw [if_neg hmode, xdpQueues, if_pos (show a.xdpProg = true from hp)]
  · have hand := (List.mem_replicate.mp hr).2.symm
    exact (Bool.and_eq_true_iff.mp hand).2

theorem Settings.clear (h : a.Settings) : a.clearInterruptScheme.Settings :=
  { h with }

theorem Settings.classes (h : a.Settings) (tc : ℕ) :
    Settings { a.clearInterruptScheme with numTc := tc, dcbEnabled := decide (tc ≠ 0) } :=
  { h with dcb := decide_eq_true_iff }

theorem Sound.setupTc (h : a.Sound) (tc : ℕ) : (setupTc a tc).2.Sound := by
  rcases setupTc_cases a tc with ⟨-, heq⟩ | ⟨-, ⟨-, heq⟩ | ⟨hp, heq⟩⟩
  · rw [heq]
    exact h
  · rw [heq]
    exact h.toSettings.clear.reinit h.exclusive
  · rw [heq]
    refine (h.toSettings.classes tc).reinit fun hprog => ⟨?_, (h.exclusive hprog).2⟩
    by_contra h0
    exact Bool.false_ne_true ((hp h0).symm.trans hprog)

theorem maxRssIndices_bounds (a : XdpAdapter) : 0 < a.maxRssIndices ∧ a.maxRssIndices < 2 ^ 16 := by
  rw [maxRssIndices]
  cases a.mac <;> decide

theorem Sound.setChannels (h : a.Sound) (ch : Channels) : (a.setChannels ch).2.Sound := by
  rw [XdpAdapter.setChannels]
  split
  · exact h
  split
  · exact h
  split
  · exact h
  apply Sound.setupTc
  refine { h with rss := ?_ }
  -- the limit is between one and the most that RSS can use
  intro h0
  have hval := congrArg BitVec.toNat h0
  have hbounds := a.maxRssIndices_bounds
  change (if ch.combinedCount > a.maxRssIndices then a.maxRssIndices else ch.combinedCount) % 2 ^ 16
    = 0 at hval
  split at hval <;> omega

theorem Sound.disableSriov (h : a.Sound) (assigned : Bool) :
    Sound { a with toQueueAdapter := (disableSriov a.toQueueAdapter assigned).2 } := by
  rcases disableSriov_cases a.toQueueAdapter assigned with ⟨_, heq, -⟩ | ⟨vmdqEnabled, hv, heq⟩
  · rw [heq]
    exact { h with }
  · rw [heq]
    refine ⟨⟨h.dcb, h.key, fun he => h.limit (hv he), h.limit_le, Nat.zero_le _, h.rss⟩,
      fun hp => ⟨(h.exclusive hp).1, ?_⟩, h.numXdpQueues, h.rxProg⟩
    cases hve : vmdqEnabled with
    | false => rfl
    | true => exact absurd ((h.exclusive hp).2.symm.trans (hv hve)) Bool.false_ne_true

theorem Sound.enableSriov (h : a.Sound) {numVfs : ℕ} (hle : numVfs ≤ 63) :
    Sound { a with toQueueAdapter := (enableSriov a.toQueueAdapter numVfs).2 } := by
  rw [Ixgbe.enableSriov]
  split
  · exact h
  case isFalse hp =>
    refine ⟨⟨h.dcb, h.key, fun _ => ?_, ?_, ?_, h.rss⟩, fun hprog => absurd hprog hp,
      fun hprog => absurd hprog hp, fun hr => absurd (h.rxProg hr) hp⟩
    · dsimp only
      split
      · decide
      · assumption
    · dsimp only
      split
      · decide
      · exact h.limit_le
    · change (BitVec.ofNat 16 numVfs).toNat ≤ 63
      rw [toNat_ofNat]
      omega

theorem le_of_admitted {numTc numVfs : ℕ} (h : ¬ tooManyVfs numTc numVfs = true) : numVfs ≤ 63 := by
  rw [tooManyVfs] at h
  split at h
  · simp only [decide_eq_true_eq] at h
    omega
  · split at h <;> simp only [decide_eq_true_eq] at h <;> omega

theorem Sound.pciSriovConfigure (h : a.Sound) (numVfs : ℕ) (assigned : Bool) :
    (a.pciSriovConfigure numVfs assigned).2.Sound := by
  rw [XdpAdapter.pciSriovConfigure]
  split
  · exact pciSriovDisable_inv (fun b hb => hb.disableSriov assigned) (fun b hb => hb.setupTc _) h
  refine pciSriovEnable_rule (P := Sound) (Q := fun _ => Sound)
    (fun b hb => hb.disableSriov assigned) (fun _ _ _ hb => hb) (fun _ => h)
    (fun b hb hadm _ => ?_) h
  have hs := (hb.enableSriov (le_of_admitted (Bool.eq_false_iff.mp hadm))).setupTc
    (Ixgbe.enableSriov b.toQueueAdapter numVfs).2.numTc
  exact { hs with }

def withProg (a : XdpAdapter) (prog : Bool) : XdpAdapter :=
  reinit { clearInterruptScheme { a with xdpProg := prog } with numTc := 0, dcbEnabled := false }

def Attaches (a : XdpAdapter) (prog : Bool) (mtu : ℕ) (attr : ℕ → RxRingAttr) : Prop :=
  prog = true ∧ a.xdpProg = false ∧ a.dcbEnabled = false ∧
    ∀ i < a.numRxQueues, (attr i).rscEnabled = false ∧ mtu + pktHdrPad ≤ (attr i).bufsz

theorem xdpRefused_eq_false_iff {mtu : ℕ} {attr : ℕ → RxRingAttr} :
    a.xdpRefused mtu attr = false ↔ a.dcbEnabled = false ∧
      ∀ i < a.numRxQueues, (attr i).rscEnabled = false ∧ mtu + pktHdrPad ≤ (attr i).bufsz := by
  simp [xdpRefused]

theorem Sound.xdpSetup_cases (h : a.Sound) (prog : Bool) (mtu : ℕ) (attr : ℕ → RxRingAttr) :
    (¬ a.Attaches prog mtu attr ∧ (a.xdpSetup prog mtu attr = (eInval, [], a) ∨
      a.xdpSetup prog mtu attr =
        (0, [], { a with rxProg := replicate a.numRxQueues a.xdpProg }) ∨
      prog = false ∧ a.xdpSetup prog mtu attr = (0, [], a.withProg false))) ∨
    (a.Attaches prog mtu attr ∧ a.xdpSetup prog mtu attr =
      (0, range (a.withProg true).numRxQueues, a.withProg true)) := by
  rw [xdpSetup]
  cases hr : a.xdpRefused mtu attr with
  | true =>
    refine .inl ⟨fun hatt => ?_, .inl rfl⟩
    exact Bool.false_ne_true ((xdpRefused_eq_false_iff.mpr hatt.2.2).symm.trans hr)
  | false =>
    obtain ⟨hdcb, hrings⟩ := xdpRefused_eq_false_iff.mp hr
    have htc : a.numTc = 0 := by
      by_contra hne
      exact Bool.false_ne_true (hdcb.symm.trans (h.dcb.mpr hne))
    by_cases hne : prog ≠ a.xdpProg
    · -- without traffic classes the reconfiguration goes through
      have hset : Ixgbe.setupTc { a with xdpProg := prog } a.numTc = (0, a.withProg prog) := by
        rw [htc, Ixgbe.setupTc, if_neg (Nat.not_lt_zero _)]
        rfl
      rw [if_pos hne, hset, if_neg (not_not.mpr rfl)]
      cases prog with
      | false => exact .inl ⟨fun hatt => Bool.false_ne_true hatt.1, .inr (.inr ⟨rfl, rfl⟩)⟩
      | true => exact .inr ⟨⟨rfl, (Bool.eq_false_iff.mpr (Ne.symm hne)), hdcb, hrings⟩, rfl⟩
    · rw [if_neg hne]
      obtain rfl := not_not.mp hne
      refine .inl ⟨fun hatt => ?_, .inr (.inl rfl)⟩
      exact Bool.false_ne_true (hatt.2.1.symm.trans hatt.1)

theorem Settings.withXdpProg (h : a.Settings) (prog : Bool) : Settings
    { clearInterruptScheme { a with xdpProg := prog } with numTc := 0, dcbEnabled := false } :=
  { h with dcb := ⟨nofun, fun h0 => absurd rfl h0⟩ }

theorem Settings.withProg (h : a.Settings) {prog : Bool}
    (hx : prog = true → a.vmdqEnabled = false) : (a.withProg prog).Sound :=
  (h.withXdpProg prog).reinit fun hp => ⟨rfl, hx hp⟩

theorem Settings.visited_iff (h : a.Settings) :
    (∀ i ∈ range (a.withProg true).numRxQueues, i < (a.withProg true).numXdpQueues) ↔
      a.vmdqEnabled = false ∧ a.rssQueues ≤ min maxXdpQs a.nrCpuIds :=
  Settings.reinit_visited_iff (h.withXdpProg true) (Nat.zero_le 1) rfl

end XdpAdapter

/-- A first program comes only without pools, and with a receive queue for each CPU at most, or 64.
-/
def XdpFits (s : XdpRun) : XdpEvent → Prop
  | .xdpSetup prog mtu attr => s.adapter.Attaches prog mtu attr →
    s.adapter.vmdqEnabled = false ∧ s.adapter.rssQueues ≤ min maxXdpQs s.adapter.nrCpuIds
  | _ => True

def XdpRun.Inv (s : XdpRun) : Prop :=
  s.adapter.Sound ∧ ∀ i ∈ s.visited, i < s.adapter.numXdpQueues

theorem XdpRun.Inv.ringsExist {s : XdpRun} (h : s.Inv) : s.RingsExist := by
  refine ⟨h.2, fun hr cpu hcpu => ?_⟩
  rw [h.1.numXdpQueues (h.1.rxProg hr)]
  exact h.1.toSettings.determineXdpQIdx_lt hcpu

theorem XdpRun.Inv.step {s : XdpRun} (h : s.Inv) {e : XdpEvent} (hfits : XdpFits s e) :
    (xdpStep s e).Inv := by
  cases e with
  | xdpSetup prog mtu attr =>
    rw [xdpStep]
    rcases h.1.xdpSetup_cases prog mtu attr with ⟨-, heq | heq | ⟨-, heq⟩⟩ | ⟨hatt, heq⟩
    · rw [heq]
      exact ⟨h.1, nofun⟩
    · rw [heq]
      refine ⟨⟨⟨h.1.dcb, h.1.key, h.1.limit, h.1.limit_le, h.1.offset_le, h.1.rss⟩, h.1.exclusive,
        h.1.numXdpQueues, fun hr => ?_⟩, nofun⟩
      exact (List.mem_replicate.mp hr).2.symm
    · rw [heq]
      exact ⟨h.1.toSettings.withProg nofun, nofun⟩
    · rw [heq]
      have hroom := hfits hatt
      exact ⟨h.1.toSettings.withProg fun _ => hroom.1, h.1.toSettings.visited_iff.mpr hroom⟩
  | setChannels ch => exact ⟨h.1.setChannels ch, nofun⟩
  | setupTc tc => exact ⟨h.1.setupTc tc, nofun⟩
  | sriovConfigure numVfs assigned => exact ⟨h.1.pciSriovConfigure numVfs assigned, nofun⟩

theorem XdpRun.Inv.not_ringsExist {s : XdpRun} (h : s.Inv) {e : XdpEvent} (hfits : ¬ XdpFits s e) :
    ¬ (xdpStep s e).RingsExist := by
  cases e with
  | xdpSetup prog mtu attr =>
    obtain ⟨hatt, hroom⟩ := Classical.not_imp.mp hfits
    rcases h.1.xdpSetup_cases prog mtu attr with ⟨hno, -⟩ | ⟨-, heq⟩
    · exact absurd hatt hno
    · rw [xdpStep, heq]
      exact fun hex => hroom (h.1.toSettings.visited_iff.mp hex.1)
  | setChannels ch => exact absurd trivial hfits
  | setupTc tc => exact absurd trivial hfits
  | sriovConfigure numVfs assigned => exact absurd trivial hfits

/-- **The XDP rings in use exist** all along a run exactly if each first program is attached without
pools, and with no more receive queues than CPUs, or than 64. -/
theorem xdp_rings_exist_iff (a : XdpAdapter) (ha : a.Probed) (es : List XdpEvent) :
    After xdpStep XdpRun.RingsExist ⟨a, []⟩ es ↔ Along xdpStep XdpFits ⟨a, []⟩ es := by
  have hs : XdpRun.Inv ⟨a, []⟩ := ⟨ha.sound, nofun⟩
  refine after_iff_along (fun _ _ => True) (fun _ _ (h : XdpRun.Inv _) _ hfits => h.step hfits)
    (fun _ h => h.ringsExist) (fun _ _ h _ hfits => h.not_ringsExist hfits) hs ?_
  exact along_of_forall (q := fun _ => True) _ _ fun _ _ => trivial

/-- The flow director does not sample. -/
def fourCpus : XdpAdapter where
  toQueueAdapter := { probedAdapter with
    rss := ⟨4, 4, 0xF, 0⟩
    fdir := ⟨4, 4, 0, 0⟩
    numRxPools := 1
    numRxQueuesPerPool := 1
    numRxQueues := 4
    numTxQueues := 4
    rxRing := [0, 1, 2, 3]
    txRing := [0, 1, 2, 3] }
  nrCpuIds := 4
  numPossibleCpus := 4
  xdpLockingKey := false
  dcbEnabled := false
  running := true
  numXdpQueues := 0
  rxProg := [false, false, false, false]

theorem fourCpus_probed : fourCpus.Probed :=
  ⟨⟨by decide, by decide, nofun, by decide, by decide, by decide⟩, rfl, by decide⟩

def attachProg : XdpEvent := .xdpSetup true 1500 fun _ => ⟨false, 2048⟩

theorem xdp_rings_exist_four_cpus : fourCpus.Probed ∧ After xdpStep XdpRun.RingsExist
    ⟨fourCpus, []⟩ [attachProg, .sriovConfigure 4 false, .setupTc 4, attachProg] := by
  refine ⟨fourCpus_probed, (xdp_rings_exist_iff fourCpus fourCpus_probed _).mpr ?_⟩
  exact ⟨fun _ => ⟨rfl, by decide⟩, trivial, trivial, fun hatt => absurd hatt.2.1 (by decide),
    trivial⟩

/-- With 16 channels on four CPUs, or next to four VFs. -/
theorem attach_visits_missing_rings :
    let s := run xdpStep ⟨fourCpus, []⟩ [.setChannels ⟨16, 0, 0, 1⟩, attachProg]
    let t := run xdpStep ⟨fourCpus, []⟩ [.sriovConfigure 4 false, attachProg]
    fourCpus.Probed ∧
      (s.adapter.numXdpQueues = 4 ∧ s.visited = range 16 ∧ ¬ s.RingsExist) ∧
      (t.adapter.numXdpQueues = 0 ∧ t.visited = range 4 ∧ ¬ t.RingsExist) := by
  intro s t
  have hs : s.adapter.numXdpQueues = 4 ∧ s.visited = range 16 := by decide
  have ht : t.adapter.numXdpQueues = 0 ∧ t.visited = range 4 := by decide
  refine ⟨fourCpus_probed, ⟨hs.1, hs.2, fun hex => ?_⟩, ht.1, ht.2, fun hex => ?_⟩
  · have hlt := hex.1 4 (hs.2 ▸ by decide)
    exact lt_irrefl 4 hlt
  · have hlt := hex.1 0 (ht.2 ▸ by decide)
    exact lt_irrefl 0 hlt

end Ixgbe
