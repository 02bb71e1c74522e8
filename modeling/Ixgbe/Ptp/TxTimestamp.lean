import Ixgbe.Hw.Basic
import Ixgbe.Library.EventRun

/-! # The Tx timestamp slot

`__IXGBE_PTP_TX_IN_PROGRESS` locks the slot of `ptp_tx_skb`. All steps keep the two together but a
transmit whose PTP header does not parse. -/

namespace Ixgbe

open EventRun

structure TsyncRegs where
  tsynctxctl : U32 := 0
  tsyncrxctl : U32 := 0
  rxmtrl : U32 := 0
  etqf1588 : U32 := 0
  deriving DecidableEq, Repr

/-- The last three fields, not in the source, record references to frames. -/
structure PtpTx where
  inProgress : Bool := false
  ptpTxSkb : Option ℕ := none
  ptpTxStart : ℕ := 0
  ptpTxWork : Bool := false
  ptpSeqId : BitVec 16 := 0
  ptpByPhyEna : Bool := false
  txHwtstampSkipped : ℕ := 0
  txHwtstampTimeouts : ℕ := 0
  jiffies : ℕ := 0
  regs : TsyncRegs := {}
  rxHwtstampEnabled : Bool := false
  rxHwtstampInRegister : Bool := false
  taken : List ℕ := []
  released : List ℕ := []
  stamped : List ℕ := []
  deriving DecidableEq, Repr

structure PtpCfg where
  mac : MacType
  /-- `HZ`, ticks per second; `IXGBE_PTP_TX_TIMEOUT` is one second. -/
  hz : ℕ
  ptpClock : Bool

def PtpTx.kfreeSkb (s : PtpTx) (skb : Option ℕ) : PtpTx :=
  { s with released := skb.toList ++ s.released }

/-- The slot is emptied, the bit cleared and the reference given back. -/
def PtpTx.freeSlot (s : PtpTx) : PtpTx :=
  { s.kfreeSkb s.ptpTxSkb with ptpTxSkb := none, inProgress := false }

def ptpClearTxTimestamp (s : PtpTx) : PtpTx := s.freeSlot

def ptpClearTxTimestampE600 (s : PtpTx) : PtpTx := s.freeSlot

def PtpTx.txTimeout (hz : ℕ) (s : PtpTx) : Bool := s.ptpTxStart + hz < s.jiffies

section

variable (cfg : PtpCfg) (s : PtpTx) (sts : U32)

def ptpTxHang : PtpTx :=
  if s.ptpTxSkb = none then s
  else if s.inProgress = false then s
  else if s.txTimeout cfg.hz then
    -- cancel_work_sync, then the slot, then the counter
    { ptpClearTxTimestamp { s with ptpTxWork := false } with
      txHwtstampTimeouts := s.txHwtstampTimeouts + 1 }
  else s

def ptpTxHwtstamp : PtpTx :=
  { s.freeSlot with stamped := s.ptpTxSkb.toList ++ s.stamped }

def tsynctxctlValid : U32 := 0x1

/-- `ixgbe_ptp_tx_hwtstamp_work`, taken off the queue. -/
def ptpTxHwtstampWork (s₀ : PtpTx) : PtpTx :=
  let s := { s₀ with ptpTxWork := false }
  if s.ptpTxSkb = none then ptpClearTxTimestamp s
  else if s.regs.tsynctxctl &&& tsynctxctlValid ≠ 0 then ptpTxHwtstamp s
  else if s.txTimeout cfg.hz then
    { ptpClearTxTimestamp s with txHwtstampTimeouts := s.txHwtstampTimeouts + 1 }
  else { s with ptpTxWork := true }

/-- The header is known by its sequence id. -/
inductive PtpClass
  | none
  | ptp (hdr : Option (BitVec 16))
  deriving DecidableEq, Repr

def ptpIsTxPtp (c : PtpClass) : Bool × PtpTx :=
  if s.ptpByPhyEna = false then (false, s)
  else match c with
    | .none => (false, s)
    -- a PTP frame with an invalid header: only the bit is cleared
    | .ptp .none => (true, { s with inProgress := false })
    | .ptp (.some seq) => (true, { s with ptpSeqId := seq })

def proxyStsSeqId : BitVec 16 := sts.extractLsb' 0 16

def proxyStsErr : BitVec 14 := sts.extractLsb' 16 14

def eNxio : ℤ := -6

def eRange : ℤ := -34

def ptpTxPhytstampErr : ℤ :=
  if s.inProgress = false then eNxio
  else if proxyStsErr sts ≠ 0 then (proxyStsErr sts).toNat
  else if proxyStsSeqId sts ≠ s.ptpSeqId then eInval
  else 0

/-- Whatever the status says, the slot is freed. -/
def ptpTxPhytstampE600 : ℤ × PtpTx :=
  let err := ptpTxPhytstampErr s sts
  let stamped := if err = 0 then s.ptpTxSkb.toList ++ s.stamped else s.stamped
  let skipped := if err = 0 then s.txHwtstampSkipped else s.txHwtstampSkipped + 1
  (err, { s.freeSlot with stamped := stamped, txHwtstampSkipped := skipped })

/-- `other` is any value the driver does not know. -/
inductive HwtstampTxType
  | off
  | on
  | other
  deriving DecidableEq, Repr

/-- `other` is any value the driver does not list. -/
inductive HwtstampRxFilter
  | none
  | all
  | some
  | ptpV1L4Event
  | ptpV1L4Sync
  | ptpV1L4DelayReq
  | ptpV2L4Event
  | ptpV2L4Sync
  | ptpV2L4DelayReq
  | ptpV2L2Event
  | ptpV2L2Sync
  | ptpV2L2DelayReq
  | ptpV2Event
  | ptpV2Sync
  | ptpV2DelayReq
  | ntpAll
  | other
  deriving DecidableEq, Repr

structure HwtstampConfig where
  flags : U32 := 0
  txType : HwtstampTxType
  rxFilter : HwtstampRxFilter
  deriving DecidableEq, Repr

def tsynctxctlEnabled : U32 := 0x10

def tsyncrxctlEnabled : U32 := 0x10

def tsyncrxctlTypeMask : U32 := 0xE

def tsyncrxctlTypeL4V1 : U32 := 0x2

def tsyncrxctlTypeAll : U32 := 0x8

def tsyncrxctlTypeEventV2 : U32 := 0xA

def tsyncrxctlTsipUtEn : U32 := 0x00800000

def ptpEvPort : U32 := 319 <<< 16

def rxmtrlV1SyncMsg : U32 := 0x0

def rxmtrlV1DelayReqMsg : U32 := 0x1

def etqf1588On : U32 := 0x80000000 ||| 0x40000000 ||| 0x88F7

/-- `inRegister = none` leaves the second flag as it is. -/
structure RxChoice where
  rxCtl : U32
  mtrl : U32
  rxFilter : HwtstampRxFilter
  isL2 : Bool := false
  enabled : Bool := true
  inRegister : Option Bool := some true

/-- `none` is the error exit. -/
def rxChoice (mac : MacType) : HwtstampRxFilter → Option RxChoice
  | .none => some { rxCtl := 0, mtrl := 0, rxFilter := .none, enabled := false,
                    inRegister := some false }
  | .ptpV1L4Sync => some { rxCtl := tsyncrxctlEnabled ||| tsyncrxctlTypeL4V1,
                           mtrl := ptpEvPort ||| rxmtrlV1SyncMsg, rxFilter := .ptpV1L4Sync }
  | .ptpV1L4DelayReq => some { rxCtl := tsyncrxctlEnabled ||| tsyncrxctlTypeL4V1,
                               mtrl := ptpEvPort ||| rxmtrlV1DelayReqMsg,
                               rxFilter := .ptpV1L4DelayReq }
  | .ptpV2Event | .ptpV2L2Event | .ptpV2L4Event | .ptpV2Sync | .ptpV2L2Sync | .ptpV2L4Sync
  | .ptpV2DelayReq | .ptpV2L2DelayReq | .ptpV2L4DelayReq =>
    some { rxCtl := tsyncrxctlEnabled ||| tsyncrxctlTypeEventV2, mtrl := ptpEvPort,
           rxFilter := .ptpV2Event, isL2 := true }
  | .ptpV1L4Event | .ntpAll | .all =>
    if MacType.macX550.rank ≤ mac.rank then
      some { rxCtl := tsyncrxctlEnabled ||| tsyncrxctlTypeAll, mtrl := ptpEvPort,
             rxFilter := .all, inRegister := none }
    else none
  | .some | .other => none

/-- The X550 family timestamps every packet as soon as any filter is asked for. -/
def RxChoice.perPacket (mac : MacType) (r : RxChoice) : RxChoice :=
  match mac with
  | .macX550 | .macX550EMx | .macX550EMa =>
    if r.rxFilter = .none then r
    else { r with
      rxCtl := tsyncrxctlEnabled ||| tsyncrxctlTypeAll ||| tsyncrxctlTsipUtEn
      rxFilter := .all, enabled := true, inRegister := some false, isL2 := true }
  | _ => r

def HwtstampTxType.ctl (t : HwtstampTxType) : U32 := if t = .off then 0 else tsynctxctlEnabled

def ptpSetTimestampMode (config : HwtstampConfig) : ℤ × HwtstampConfig × PtpTx :=
  if config.flags ≠ 0 then (eInval, config, s)
  else if config.txType = .other then (eRange, config, s)
  else match rxChoice cfg.mac config.rxFilter with
    | none =>
      (eRange, { config with rxFilter := .none },
        { s with rxHwtstampEnabled := false, rxHwtstampInRegister := false })
    | some r₀ =>
      let r := r₀.perPacket cfg.mac
      let regs : TsyncRegs :=
        { tsynctxctl := s.regs.tsynctxctl &&& ~~~ tsynctxctlEnabled ||| config.txType.ctl
          tsyncrxctl :=
            s.regs.tsyncrxctl &&& ~~~ (tsyncrxctlEnabled ||| tsyncrxctlTypeMask) ||| r.rxCtl
          rxmtrl := r.mtrl
          etqf1588 := if r.isL2 then etqf1588On else 0 }
      (0, { config with rxFilter := r.rxFilter },
        ptpClearTxTimestamp
          { s with regs := regs, rxHwtstampEnabled := r.enabled,
                   rxHwtstampInRegister := r.inRegister.getD s.rxHwtstampInRegister })

/-- `HWTSTAMP_FILTER_NONE` apart. -/
def HwtstampRxFilter.listedE600 (f : HwtstampRxFilter) : Bool :=
  f != .none && f != .some && f != .other

def HwtstampTxType.ctlE600 (t : HwtstampTxType) (val : U32) : U32 :=
  if t = .off then val &&& ~~~ tsynctxctlEnabled else val ||| tsynctxctlEnabled

def rxmtrlE600 : HwtstampRxFilter → U32
  | .none => 0
  | .ptpV1L4Sync => rxmtrlV1SyncMsg ||| ptpEvPort
  | .ptpV1L4DelayReq => rxmtrlV1DelayReqMsg ||| ptpEvPort
  | _ => ptpEvPort

/-- `TSYNCTXCTL` is written before it looks at the Rx filter. -/
def ptpSetTimestampModeE600 (config : HwtstampConfig) : ℤ × HwtstampConfig × PtpTx :=
  if config.flags ≠ 0 then (eInval, config, s)
  else if config.txType = .other then (eRange, config, s)
  else
    let txctl := config.txType.ctlE600 s.regs.tsynctxctl
    let s₁ := { s with regs := { s.regs with tsynctxctl := txctl } }
    if config.rxFilter.listedE600 then
      let regs : TsyncRegs :=
        { tsynctxctl := txctl
          tsyncrxctl := tsyncrxctlEnabled ||| tsyncrxctlTypeAll ||| tsyncrxctlTsipUtEn
          rxmtrl := rxmtrlE600 config.rxFilter
          etqf1588 := etqf1588On }
      (0, { config with rxFilter := .all },
        ptpClearTxTimestampE600
          { s₁ with regs := regs, rxHwtstampEnabled := true, rxHwtstampInRegister := false })
    else
      let s₂ := { s₁ with rxHwtstampEnabled := false, rxHwtstampInRegister := false }
      if config.rxFilter ≠ .none then (eRange, { config with rxFilter := .none }, s₂)
      else
        let regs : TsyncRegs :=
          { tsynctxctl := txctl
            tsyncrxctl :=
              s.regs.tsyncrxctl &&& ~~~ (tsyncrxctlEnabled ||| tsyncrxctlTypeMask)
            rxmtrl := rxmtrlE600 .none
            etqf1588 := 0 }
        (0, config, ptpClearTxTimestampE600 { s₂ with regs := regs })

def ptpSetTsConfig (config : HwtstampConfig) : ℤ × HwtstampConfig × PtpTx :=
  if cfg.mac = .macE610 then ptpSetTimestampModeE600 s config
  else ptpSetTimestampMode cfg s config

inductive XmitExit
  /-- `ixgbe_maybe_stop_tx` found no room: `NETDEV_TX_BUSY`. -/
  | busy
  /-- Dropped before timestamps are looked at. -/
  | noVlanHeader
  /-- `out_drop` further down: `pskb_expand_head`, `ixgbe_fso` or `ixgbe_tso` failed. -/
  | dropped
  | mapFailed
  | sent
  deriving DecidableEq, Repr

/-- Whether it asks for a timestamp, its class, and how its transmission ends. -/
structure TxFrame where
  skb : ℕ
  hwTstamp : Bool
  cls : PtpClass
  exit : XmitExit
  deriving DecidableEq, Repr

/-- The flag is `IXGBE_TX_FLAGS_TSTAMP`. -/
def xmitTimestamp (f : TxFrame) : Bool × PtpTx :=
  if f.hwTstamp && cfg.ptpClock then
    -- test_and_set_bit_lock
    if s.inProgress = false then
      let r := ptpIsTxPtp { s with
        inProgress := true, ptpTxSkb := some f.skb, ptpTxStart := s.jiffies
        taken := f.skb :: s.taken } f.cls
      (true, if r.1 = false then { r.2 with ptpTxWork := true } else r.2)
    else (false, { s with txHwtstampSkipped := s.txHwtstampSkipped + 1 })
  else (false, s)

def xmitFrameTstamp (f : TxFrame) : PtpTx :=
  match f.exit with
  | .busy | .noVlanHeader => s
  | .sent => (xmitTimestamp cfg s f).2
  | .dropped | .mapFailed =>
    let r := xmitTimestamp cfg s f
    -- cleanup_tx_tstamp
    if r.1 then { r.2.freeSlot with ptpTxWork := false } else r.2

/-- Also the hardware's timestamp register, time, and `ixgbe_ptp_by_phy_cfg_e600`. -/
inductive PtpTxEvent
  | xmit (f : TxFrame)
  | hwtstampWork
  | txHang
  | phyInterrupt (sts : U32)
  | setTsConfig (config : HwtstampConfig)
  | phyTimestamps (ena : Bool)
  | hwValid (valid : Bool)
  | tick (d : ℕ)
  deriving DecidableEq, Repr

def ptpTxStep : PtpTxEvent → PtpTx
  | .xmit f => xmitFrameTstamp cfg s f
  | .hwtstampWork => ptpTxHwtstampWork cfg s
  | .txHang => ptpTxHang cfg s
  | .phyInterrupt sts => (ptpTxPhytstampE600 s sts).2
  | .setTsConfig config => (ptpSetTsConfig cfg s config).2.2
  | .phyTimestamps ena => { s with ptpByPhyEna := ena }
  | .hwValid valid =>
    { s with regs := { s.regs with
        tsynctxctl := if valid then s.regs.tsynctxctl ||| tsynctxctlValid
          else s.regs.tsynctxctl &&& ~~~ tsynctxctlValid } }
  | .tick d => { s with jiffies := s.jiffies + d }

/-- Every reference taken was given back once, but for the frame that waits. -/
structure SlotSound (s : PtpTx) : Prop where
  bit : s.inProgress = true ↔ s.ptpTxSkb ≠ none
  refs : s.taken.Perm (s.ptpTxSkb.toList ++ s.released)

inductive SlotStep (s s' : PtpTx) : Prop
  | kept (hbit : s'.inProgress = s.inProgress) (hskb : s'.ptpTxSkb = s.ptpTxSkb)
      (ht : s'.taken = s.taken) (hr : s'.released = s.released)
  | freed (hbit : s'.inProgress = false) (hskb : s'.ptpTxSkb = none)
      (ht : s'.taken = s.taken) (hr : s'.released = s.ptpTxSkb.toList ++ s.released)
  | took (skb : ℕ) (hold : s.inProgress = false) (hbit : s'.inProgress = true)
      (hskb : s'.ptpTxSkb = some skb) (ht : s'.taken = skb :: s.taken)
      (hr : s'.released = s.released)
  | tookFreed (skb : ℕ) (hold : s.inProgress = false) (hbit : s'.inProgress = false)
      (hskb : s'.ptpTxSkb = none) (ht : s'.taken = skb :: s.taken)
      (hr : s'.released = skb :: s.released)

/-- It clears the bit under the frame in the slot. -/
def LosesLock : PtpTxEvent → Prop
  | .xmit f => f.hwTstamp = true ∧ cfg.ptpClock = true ∧ s.inProgress = false ∧
      s.ptpByPhyEna = true ∧ f.cls = .ptp none ∧ f.exit = .sent
  | _ => False

end

instance (cfg : PtpCfg) (s : PtpTx) (e : PtpTxEvent) : Decidable (LosesLock cfg s e) := by
  cases e <;> unfold LosesLock <;> infer_instance

section

variable {cfg : PtpCfg} {s s' : PtpTx}

theorem SlotStep.refl (s : PtpTx) : SlotStep s s := .kept rfl rfl rfl rfl

theorem SlotStep.sound (h : SlotStep s s') (hs : SlotSound s) : SlotSound s' := by
  -- a free slot holds no frame, so what is taken next is the only reference outstanding
  have hfree : s.inProgress = false → s.ptpTxSkb = none := by
    intro hb
    by_contra hne
    rw [hs.bit.mpr hne] at hb
    exact absurd hb (by decide)
  cases h with
  | kept hbit hskb ht hr =>
    refine ⟨?_, ?_⟩
    · rw [hbit, hskb]
      exact hs.bit
    · rw [ht, hskb, hr]
      exact hs.refs
  | freed hbit hskb ht hr =>
    refine ⟨by simp [hbit, hskb], ?_⟩
    rw [ht, hskb, hr]
    exact hs.refs
  | took skb hold hbit hskb ht hr =>
    refine ⟨by simp [hbit, hskb], ?_⟩
    have hrefs := hs.refs
    rw [hfree hold] at hrefs
    rw [ht, hskb, hr]
    exact hrefs.cons skb
  | tookFreed skb hold hbit hskb ht hr =>
    refine ⟨by simp [hbit, hskb], ?_⟩
    have hrefs := hs.refs
    rw [hfree hold] at hrefs
    rw [ht, hskb, hr]
    exact hrefs.cons skb

section

variable (cfg : PtpCfg) (s : PtpTx)

theorem ptpTxHang_slotStep : SlotStep s (ptpTxHang cfg s) := by
  unfold ptpTxHang
  split_ifs
  · exact .refl s
  · exact .refl s
  · exact .freed rfl rfl rfl rfl
  · exact .refl s

theorem ptpTxHwtstampWork_slotStep : SlotStep s (ptpTxHwtstampWork cfg s) := by
  unfold ptpTxHwtstampWork
  dsimp only
  split_ifs
  · exact .freed rfl rfl rfl rfl
  · exact .freed rfl rfl rfl rfl
  · exact .freed rfl rfl rfl rfl
  · exact .kept rfl rfl rfl rfl

theorem ptpSetTimestampMode_slotStep (config : HwtstampConfig) :
    SlotStep s (ptpSetTimestampMode cfg s config).2.2 := by
  unfold ptpSetTimestampMode
  split_ifs
  · exact .refl s
  · exact .refl s
  · cases rxChoice cfg.mac config.rxFilter with
    | none => exact .kept rfl rfl rfl rfl
    | some r => exact .freed rfl rfl rfl rfl

theorem ptpSetTimestampModeE600_slotStep (s : PtpTx) (config : HwtstampConfig) :
    SlotStep s (ptpSetTimestampModeE600 s config).2.2 := by
  unfold ptpSetTimestampModeE600
  split_ifs
  · exact .refl s
  · exact .refl s
  · exact .freed rfl rfl rfl rfl
  · exact .kept rfl rfl rfl rfl
  · exact .freed rfl rfl rfl rfl

theorem ptpSetTsConfig_slotStep (config : HwtstampConfig) :
    SlotStep s (ptpSetTsConfig cfg s config).2.2 := by
  unfold ptpSetTsConfig
  split_ifs
  · exact ptpSetTimestampModeE600_slotStep s config
  · exact ptpSetTimestampMode_slotStep cfg s config

end

theorem xmitTimestamp_took {f : TxFrame} (hb : s.inProgress = false) (hw : f.hwTstamp = true)
    (hc : cfg.ptpClock = true) :
    ∃ s', xmitTimestamp cfg s f = (true, s') ∧ s'.ptpTxSkb = some f.skb ∧
      s'.taken = f.skb :: s.taken ∧ s'.released = s.released ∧
      (s'.inProgress = false ↔ s.ptpByPhyEna = true ∧ f.cls = .ptp none) := by
  unfold xmitTimestamp ptpIsTxPtp
  rw [hw, hc, if_pos (by decide), if_pos hb]
  by_cases hphy : s.ptpByPhyEna = false
  · rw [if_pos hphy]
    exact ⟨_, rfl, rfl, rfl, rfl, by simp [hphy]⟩
  · rw [if_neg hphy]
    rcases f.cls with _ | _ | seq
    · exact ⟨_, rfl, rfl, rfl, rfl, by simp⟩
    · exact ⟨_, rfl, rfl, rfl, rfl, by simp [hphy]⟩
    · exact ⟨_, rfl, rfl, rfl, rfl, by simp⟩

theorem xmitTimestamp_kept {f : TxFrame}
    (h : ¬ (f.hwTstamp = true ∧ cfg.ptpClock = true ∧ s.inProgress = false)) :
    (xmitTimestamp cfg s f).1 = false ∧ SlotStep s (xmitTimestamp cfg s f).2 := by
  unfold xmitTimestamp
  split
  case isTrue hreq =>
    rw [Bool.and_eq_true] at hreq
    rw [if_neg fun hb => h ⟨hreq.1, hreq.2, hb⟩]
    exact ⟨rfl, .kept rfl rfl rfl rfl⟩
  · exact ⟨rfl, .refl s⟩

theorem xmitFrameTstamp_slotStep {f : TxFrame} (h : ¬ LosesLock cfg s (.xmit f)) :
    SlotStep s (xmitFrameTstamp cfg s f) := by
  by_cases hreq : f.hwTstamp = true ∧ cfg.ptpClock = true ∧ s.inProgress = false
  · obtain ⟨hw, hc, hb⟩ := hreq
    obtain ⟨s', hs', hskb, ht, hr, hlock⟩ := xmitTimestamp_took hb hw hc
    -- a frame given up on its way to the ring gives its reference back
    have hcleanup : SlotStep s { s'.freeSlot with ptpTxWork := false } := by
      refine .tookFreed f.skb hb rfl rfl ht ?_
      rw [← hr]
      change s'.ptpTxSkb.toList ++ s'.released = _
      rw [hskb]
      rfl
    unfold xmitFrameTstamp
    rw [hs']
    cases hx : f.exit with
    | busy => exact .refl s
    | noVlanHeader => exact .refl s
    | dropped => exact hcleanup
    | mapFailed => exact hcleanup
    | sent =>
      refine .took f.skb hb ?_ hskb ht hr
      rw [← Bool.not_eq_false, hlock]
      exact fun hbad => h ⟨hw, hc, hb, hbad.1, hbad.2, hx⟩
  · obtain ⟨hflag, hkept⟩ := xmitTimestamp_kept hreq
    unfold xmitFrameTstamp
    cases f.exit with
    | busy => exact .refl s
    | noVlanHeader => exact .refl s
    | sent => exact hkept
    | dropped | mapFailed =>
      dsimp only
      rw [hflag, if_neg (by decide)]
      exact hkept

theorem ptpTxStep_slotStep {e : PtpTxEvent} (h : ¬ LosesLock cfg s e) :
    SlotStep s (ptpTxStep cfg s e) := by
  cases e with
  | xmit f => exact xmitFrameTstamp_slotStep h
  | hwtstampWork => exact ptpTxHwtstampWork_slotStep cfg s
  | txHang => exact ptpTxHang_slotStep cfg s
  | phyInterrupt sts => exact .freed rfl rfl rfl rfl
  | setTsConfig config => exact ptpSetTsConfig_slotStep cfg s config
  | phyTimestamps ena => exact .kept rfl rfl rfl rfl
  | hwValid valid => exact .kept rfl rfl rfl rfl
  | tick d => exact .kept rfl rfl rfl rfl

theorem ptpTxStep_losesLock {e : PtpTxEvent} (h : LosesLock cfg s e) :
    (ptpTxStep cfg s e).inProgress = false ∧ (ptpTxStep cfg s e).ptpTxSkb ≠ none := by
  cases e with
  | xmit f =>
    obtain ⟨hw, hc, hb, hphy, hcls, hx⟩ := h
    obtain ⟨s', hs', hskb, -, -, hlock⟩ := xmitTimestamp_took hb hw hc
    have hstep : ptpTxStep cfg s (.xmit f) = s' := by
      change xmitFrameTstamp cfg s f = s'
      rw [xmitFrameTstamp, hx, hs']
    rw [hstep, hskb]
    exact ⟨hlock.mpr ⟨hphy, hcls⟩, by simp⟩
  | _ => exact h.elim

end

/-- **The Tx timestamp slot stays sound exactly along the runs in which no transmit loses the
lock.** -/
theorem slotSound_iff (cfg : PtpCfg) (s : PtpTx) (hs : SlotSound s) (es : List PtpTxEvent) :
    After (ptpTxStep cfg) SlotSound s es ↔
      Along (ptpTxStep cfg) (fun s e => ¬ LosesLock cfg s e) s es := by
  refine after_iff_along (fun _ _ => True) (fun s e h _ hok => ?_) (fun _ h => h)
    (fun s e h _ hbad hsound => ?_) hs (along_of_forall s es fun _ _ => trivial)
  · exact (ptpTxStep_slotStep hok).sound h
  · obtain ⟨hbit, hskb⟩ := ptpTxStep_losesLock (not_not.mp hbad)
    rw [hsound.bit.mpr hskb] at hbit
    exact absurd hbit (by decide)

def phyTimestamping : PtpTx := { ptpByPhyEna := true }

theorem slotSound_phy_run :
    After (ptpTxStep ⟨.macE610, 250, true⟩) SlotSound phyTimestamping
      [.xmit ⟨0, true, .ptp none, .mapFailed⟩, .xmit ⟨1, true, .ptp (some 7), .sent⟩, .tick 9,
        .txHang, .phyInterrupt 7] := by
  refine (slotSound_iff _ _ ⟨by decide, .refl []⟩ _).mpr ?_
  exact ⟨by decide, by decide, by decide, by decide, by decide, trivial⟩

/-- A PTP frame whose header does not parse waits in a slot that is not locked, and the next one
takes its place. -/
theorem slot_lost_header :
    ¬ After (ptpTxStep ⟨.macE610, 250, true⟩) SlotSound phyTimestamping
        [.xmit ⟨0, true, .ptp none, .sent⟩] ∧
      let s := run (ptpTxStep ⟨.macE610, 250, true⟩) phyTimestamping
        [.xmit ⟨0, true, .ptp none, .sent⟩, .xmit ⟨1, true, .ptp (some 7), .sent⟩,
          .phyInterrupt 7]
      s.taken = [1, 0] ∧ s.released = [1] ∧ s.ptpTxSkb = none := by
  refine ⟨?_, by decide⟩
  rintro ⟨h, -⟩
  exact absurd (h.bit.mpr (by decide)) (by decide)

end Ixgbe
