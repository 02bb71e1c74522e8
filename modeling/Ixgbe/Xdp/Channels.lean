import Ixgbe.Xdp.RingsExist

/-! # Channel reports

`ixgbe_get_channels` (`ixgbe_ethtool.c`) with MSI-X, next to what `ixgbe_set_channels` admits. -/

open EventRun BitVec

namespace Ixgbe

namespace XdpAdapter

/-- The counts, and `max_combined`. -/
def getChannels (a : XdpAdapter) : Channels × ℕ :=
  let count := if a.rss.indices = 1 then a.rss.indices
    else if a.sriovEnabled then a.rss.indices
    else if a.numTc > 1 then a.rss.indices
    else if a.atrSampleRate = 0 then a.rss.indices
    else a.fdir.indices
  (⟨count.toNat, 0, 0, nonQVectors⟩, a.maxChannels)

/-- The tests at the beginning of `ixgbe_set_channels`. -/
def Admits (a : XdpAdapter) (ch : Channels) : Prop :=
  ¬ (ch.combinedCount = 0 ∨ ch.rxCount ≠ 0 ∨ ch.txCount ≠ 0) ∧ ch.otherCount = nonQVectors ∧
    ch.combinedCount ≤ a.maxChannels

def ReportsConsistently (a : XdpAdapter) : Prop :=
  1 ≤ a.getChannels.1.combinedCount ∧ a.getChannels.1.combinedCount ≤ a.getChannels.2 ∧
    a.Admits a.getChannels.1

/-- What `ixgbe_sw_init` and `ixgbe_check_options` set without module options. -/
structure Default (a : XdpAdapter) (online : ℕ) : Prop where
  online_pos : 1 ≤ online
  online_le : online ≤ a.numPossibleCpus
  sriovEnabled : a.sriovEnabled = false
  vmdqEnabled : a.vmdqEnabled = false
  vmdqLimit : a.vmdq.limit = 0
  pciVfs : a.pciVfs = 0
  xdpProg : a.xdpProg = false
  atrSampleRate : a.atrSampleRate = 20
  rssLimit : a.rss.limit = BitVec.ofNat 16 (min a.maxRssIndices online)
  fdirLimit : a.fdir.limit = BitVec.ofNat 16 (min maxFdirIndices online)
  devTxQueues : 63 ≤ a.devTxQueues ∧ a.devTxQueues ≤ 64
  numTc : a.numTc = 0
  pgTcs : a.pgTcs ≤ maxTcs a.mac

/-- The flow director's queues, where reported, are no more than the CPUs counted in eight bits. -/
def FdirFits (a : XdpAdapter) : Prop :=
  1 ≤ a.numPossibleCpus % 2 ^ 8 ∧ (a.rss.indices = 1 ∨
    1 ≤ a.fdir.indices.toNat ∧
      a.fdir.indices.toNat ≤ min maxFdirIndices (a.numPossibleCpus % 2 ^ 8))

end XdpAdapter

inductive ChannelEvent
  | setChannels (ch : Channels)
  | setupTc (tc : ℕ)
  | sriovConfigure (numVfs : ℕ) (assigned : Bool)

def channelStep (a : XdpAdapter) : ChannelEvent → XdpAdapter
  | .setChannels ch => (a.setChannels ch).2
  | .setupTc tc => (setupTc a tc).2
  | .sriovConfigure numVfs assigned => (a.pciSriovConfigure numVfs assigned).2

/-- The RSS queues of a configuration, per class or pool. -/
structure RssFits (a : QueueAdapter) : Prop where
  pos : 1 ≤ a.rss.indices.toNat
  pool : a.vmdqEnabled = true → a.rss.indices.toNat ≤ a.rss.mask.toNat + 1
  tc : 1 < a.numTc → a.rss.indices.toNat ≤ if a.numTc > 4 then 8 else 16

theorem toNat_minU16 (x y : U16) : (minU16 x y).toNat = min x.toNat y.toNat := by
  rw [minU16]
  split <;> omega

theorem rssFits_setNumQueues {a : QueueAdapter} (hlimit : a.rss.limit ≠ 0) (htc : a.numTc ≤ 8)
    (htx : 63 ≤ a.devTxQueues ∧ a.devTxQueues ≤ 64) : RssFits (setNumQueues a) := by
  have hpos : 0 < a.rss.limit.toNat := Nat.pos_of_ne_zero fun h => hlimit (eq_of_toNat_eq h)
  by_cases h1 : a.numTc ≤ 1
  · rw [setNumQueues_of_numTc_le h1]
    cases hv : a.vmdqEnabled with
    | true =>
      rw [setVmdqQueues_eq (show a.base.vmdqEnabled = true from hv)]
      refine ⟨PoolMode.rssQueues_pos _ hlimit, fun _ => (rssQueues_le_queues _ _).trans ?_,
        fun h => absurd h1 (not_le.mpr h)⟩
      change (vmdqMode (totalPools a)).queues ≤ (vmdqMode (totalPools a)).rssMask.toNat + 1
      rw [vmdqMode]
      split <;> decide
    | false =>
      rw [show setVmdqQueues a.base = none from if_pos (congrArg not hv), Option.getD_none,
        setRssQueues]
      dsimp only
      split <;> exact ⟨hpos, fun h => absurd (hv.symm.trans h) (by decide),
        fun h => absurd h1 (not_le.mpr h)⟩
  · cases hv : a.vmdqEnabled with
    | true =>
      rw [setNumQueues, ← QueueAdapter.base,
        setDcbVmdqQueues_eq (show 1 < a.base.numTc from not_le.mp h1)
        (show a.base.vmdqEnabled = true from hv)]
      refine ⟨le_rfl, fun _ => le_rfl, fun _ => ?_⟩
      change 1 ≤ if a.numTc > 4 then 8 else 16
      split <;> decide
    | false =>
      have hdiv : 1 ≤ a.devTxQueues / a.numTc := (Nat.one_le_div_iff (by omega)).mpr (by omega)
      have hle := Nat.div_le_self a.devTxQueues a.numTc
      -- up to 8 queues for each of 8 classes, or up to 16
      have hfits : ∀ c : U16, 1 ≤ c.toNat →
          1 ≤ (minU16 (minU16 (.ofNat 16 (a.devTxQueues / a.numTc)) c) a.rss.limit).toNat ∧
          (minU16 (minU16 (.ofNat 16 (a.devTxQueues / a.numTc)) c) a.rss.limit).toNat ≤
            c.toNat := by
        intro c hc
        rw [toNat_minU16, toNat_minU16, toNat_ofNat, Nat.mod_eq_of_lt (by omega)]
        exact ⟨le_min (le_min hdiv hc) hpos, (min_le_left ..).trans (min_le_right ..)⟩
      have hoff : ¬ a.vmdqEnabled = true := fun h => absurd (hv.symm.trans h) (by decide)
      have hnone : setDcbVmdqQueues a.base = none := (if_neg h1).trans (if_pos (congrArg not hv))
      rw [setNumQueues, ← QueueAdapter.base, hnone, setDcbQueues,
        if_neg (show ¬ a.base.numTc ≤ 1 from h1)]
      by_cases h4 : a.base.numTc > 4
      · simp only [if_pos h4]
        exact ⟨(hfits 8 (by decide)).1, fun h => (hoff h).elim,
          fun _ => (hfits 8 (by decide)).2.trans (if_pos h4).ge⟩
      · simp only [if_neg h4]
        exact ⟨(hfits 16 (by decide)).1, fun h => (hoff h).elim,
          fun _ => (hfits 16 (by decide)).2.trans (if_neg h4).ge⟩

namespace XdpAdapter

/-- The settings that every configuration rests on. -/
structure Plain (a : XdpAdapter) : Prop where
  prog : a.xdpProg = false
  rate : a.atrSampleRate ≠ 0
  rss : a.rss.limit ≠ 0
  tx : 63 ≤ a.devTxQueues ∧ a.devTxQueues ≤ 64
  vmdq : a.sriovEnabled = true → a.vmdqEnabled = true
  numTc : a.numTc ≤ a.pgTcs
  pgTcs : a.pgTcs ≤ maxTcs a.mac

structure ChannelInv (a : XdpAdapter) : Prop extends Plain a where
  fits : RssFits a.toQueueAdapter

variable {a : XdpAdapter}

theorem Plain.initInterruptScheme (h : a.Plain) : a.initInterruptScheme.ChannelInv := by
  obtain ⟨l, hl⟩ := setNumQueues_laidOut a.toQueueAdapter
  obtain ⟨rxRing, txRing, hc⟩ := cacheRingRegister_eq (Ixgbe.setNumQueues a.toQueueAdapter)
  have hmax : maxTcs a.mac ≤ 8 := by cases a.mac <;> decide
  have hfits := rssFits_setNumQueues h.rss ((h.numTc.trans h.pgTcs).trans hmax) h.tx
  rw [XdpAdapter.initInterruptScheme, setNumQueues]
  rw [hc]
  refine ⟨?_, { hfits with }⟩
  rw [hl]
  exact { h with }

theorem Plain.reinit (h : a.Plain) : a.reinit.ChannelInv := by
  have hinit := h.initInterruptScheme
  rw [XdpAdapter.reinit]
  split
  · exact { hinit with }
  · exact hinit

theorem Plain.setupTc_of_le (h : a.Plain) {tc : ℕ} (hle : tc ≤ a.pgTcs) :
    (setupTc a tc).2.ChannelInv := by
  rcases setupTc_cases a tc with ⟨hgt, -⟩ | ⟨-, ⟨hp, -⟩ | ⟨-, heq⟩⟩
  · exact absurd hle (not_le.mpr hgt)
  · exact absurd (h.prog.symm.trans hp) (by decide)
  · rw [heq]
    exact Plain.reinit { h with numTc := hle }

section

variable (h : a.ChannelInv)

include h

theorem ChannelInv.setupTc (tc : ℕ) : (setupTc a tc).2.ChannelInv := by
  by_cases hle : tc ≤ a.pgTcs
  · exact h.setupTc_of_le hle
  · rw [show Ixgbe.setupTc a tc = (eInval, a) from if_pos (not_le.mp hle)]
    exact h

theorem ChannelInv.setChannels (ch : Channels) : (a.setChannels ch).2.ChannelInv := by
  rw [XdpAdapter.setChannels]
  split_ifs with hcount hother hmax
  · exact h
  · exact h
  · exact h
  · have hbounds := a.maxRssIndices_bounds
    apply ChannelInv.setupTc
    refine { h with rss := fun h0 => ?_, fits := { h.fits with } }
    have hval := congrArg BitVec.toNat h0
    change (BitVec.ofNat 16 (if ch.combinedCount > a.maxRssIndices then a.maxRssIndices
      else ch.combinedCount)).toNat = 0 at hval
    rw [toNat_ofNat] at hval
    split at hval <;> omega

theorem ChannelInv.disableSriov (assigned : Bool) :
    ChannelInv { a with toQueueAdapter := (Ixgbe.disableSriov a.toQueueAdapter assigned).2 } := by
  rcases disableSriov_cases a.toQueueAdapter assigned with ⟨_, heq, -⟩ | ⟨vmdqEnabled, hv, heq⟩
  · rw [heq]
    exact { h with fits := { h.fits with } }
  · rw [heq]
    exact { h with
      vmdq := nofun
      fits := { h.fits with pool := fun he => h.fits.pool (hv he) } }

theorem ChannelInv.enableSriov {numVfs : ℕ} (hadm : tooManyVfs a.numTc numVfs = false) :
    Plain { a with toQueueAdapter := (Ixgbe.enableSriov a.toQueueAdapter numVfs).2 } := by
  rw [Ixgbe.enableSriov, if_neg (by rw [h.prog]; decide)]
  exact ⟨h.prog, h.rate, h.rss, h.tx, fun _ => rfl,
    (le_tcLimit_of_admitted (h.numTc.trans h.pgTcs) hadm).1, tcLimit_le _ _⟩

theorem ChannelInv.pciSriovConfigure (numVfs : ℕ) (assigned : Bool) :
    (a.pciSriovConfigure numVfs assigned).2.ChannelInv := by
  rw [XdpAdapter.pciSriovConfigure]
  split
  · exact pciSriovDisable_inv (fun b hb => hb.disableSriov assigned) (fun b hb => hb.setupTc _) h
  refine pciSriovEnable_rule (P := ChannelInv) (Q := fun _ => ChannelInv)
    (fun b hb => hb.disableSriov assigned) (fun _ _ _ hb => hb) (fun _ => h)
    (fun b hb hadm _ => ?_) h
  have hen := hb.enableSriov hadm
  have hinv := hen.setupTc_of_le hen.numTc
  exact { hinv with fits := { hinv.fits with } }

theorem ChannelInv.step (e : ChannelEvent) : (channelStep a e).ChannelInv := by
  cases e with
  | setChannels ch => exact h.setChannels ch
  | setupTc tc => exact h.setupTc tc
  | sriovConfigure numVfs assigned => exact h.pciSriovConfigure numVfs assigned

end

theorem Default.plain {online : ℕ} (h : a.Default online) : a.Plain where
  prog := h.xdpProg
  rate h0 := absurd (h.atrSampleRate.symm.trans h0) (by decide)
  rss h0 := by
    have hpos := h.online_pos
    have hbounds := a.maxRssIndices_bounds
    have hval := congrArg BitVec.toNat (h.rssLimit.symm.trans h0)
    exact absurd hval (by simp; omega)
  tx := h.devTxQueues
  vmdq hs := absurd (h.sriovEnabled.symm.trans hs) (by decide)
  numTc := h.numTc ▸ Nat.zero_le _
  pgTcs := h.pgTcs

theorem reportsConsistently_iff_le : a.ReportsConsistently ↔
    1 ≤ a.getChannels.1.combinedCount ∧ a.getChannels.1.combinedCount ≤ a.maxChannels :=
  ⟨fun h => ⟨h.1, h.2.1⟩, fun h => ⟨h.1, h.2, by
    rintro (h0 | h0 | h0)
    · exact absurd h0 (Nat.one_le_iff_ne_zero.mp h.1)
    · exact h0 rfl
    · exact h0 rfl, rfl, h.2⟩⟩

theorem ChannelInv.reportsConsistently_iff (h : a.ChannelInv) :
    a.ReportsConsistently ↔ a.sriovEnabled = true ∨ 1 < a.numTc ∨ a.FdirFits := by
  have hpos := h.fits.pos
  rw [reportsConsistently_iff_le]
  by_cases hs : a.sriovEnabled = true
  · have hpool := h.fits.pool (h.vmdq hs)
    simp [getChannels, maxChannels, hs, hpos, hpool]
  by_cases htc : a.numTc > 1
  · have hle := h.fits.tc htc
    simp [getChannels, maxChannels, hs, htc, hpos, hle]
  have hmax : a.maxChannels = min maxFdirIndices (a.numPossibleCpus % 2 ^ 8) := by
    rw [maxChannels, if_neg hs, if_neg htc, if_pos h.rate]
    dsimp only
    split <;> omega
  have h63 : maxFdirIndices = 63 := rfl
  rw [or_iff_right hs, or_iff_right htc, hmax, getChannels]
  by_cases h1 : a.rss.indices = 1
  · have hone : a.rss.indices.toNat = 1 := congrArg BitVec.toNat h1
    have hfits : a.FdirFits ↔ 1 ≤ a.numPossibleCpus % 2 ^ 8 := and_iff_left (.inl h1)
    rw [hfits, if_pos h1]
    dsimp only
    omega
  · rw [if_neg h1, if_neg hs, if_neg htc, if_neg h.rate, FdirFits, or_iff_right h1]
    dsimp only
    omega

end XdpAdapter

/-- Four CPUs and the default options. -/
def defaultFourCpus : XdpAdapter := { fourCpus with atrSampleRate := 20 }

theorem defaultFourCpus_default : defaultFourCpus.Default 4 :=
  ⟨by decide, by decide, rfl, rfl, rfl, rfl, rfl, rfl, rfl, rfl, by decide, rfl, by decide⟩

end Ixgbe
