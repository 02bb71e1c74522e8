import Ixgbe.Ptp.TxTimestamp

/-! # The timestamp configuration

`ixgbe_ptp_set_ts_config`: flags, registers and stored configuration have to agree, and a failed
call to change none. -/

namespace Ixgbe

open EventRun WordArray BitVec Option

def eFault : ℤ := -14

structure TsState where
  ptp : PtpTx
  tstampConfig : HwtstampConfig
  ptpClock : Bool
  deriving DecidableEq

/-- `none` if `copy_from_user` faults, and whether `copy_to_user` succeeds. -/
structure TsRequest where
  config : Option HwtstampConfig
  copiedBack : Bool

def setTsConfig (cfg : PtpCfg) (s : TsState) (q : TsRequest) : ℤ × TsState :=
  match q.config with
  | none => (eFault, s)
  | some config =>
    let r := ptpSetTsConfig cfg s.ptp config
    if r.1 ≠ 0 then (r.1, { s with ptp := r.2.2 })
    -- the settings are saved for future reference
    else (if q.copiedBack then 0 else eFault, { s with ptp := r.2.2, tstampConfig := r.2.1 })

/-- The stored configuration is programmed again. -/
def ptpReset (cfg : PtpCfg) (s : TsState) : TsState :=
  let r := ptpSetTimestampMode cfg s.ptp s.tstampConfig
  { s with ptp := r.2.2, tstampConfig := r.2.1 }

/-- A clock that is there is used again, with its configuration. -/
def ptpCreateClock (registered : Bool) (s : TsState) : Option TsState :=
  if s.ptpClock then some s
  else if registered then
    some { s with
      ptpClock := true
      tstampConfig := { s.tstampConfig with rxFilter := .none, txType := .off } }
  else none

def ptpInit (cfg : PtpCfg) (registered : Bool) (s : TsState) : TsState :=
  match ptpCreateClock registered s with
  | none => s
  | some s => ptpReset cfg s

def MacType.isX550Family (mac : MacType) : Bool :=
  mac = .macX550 || mac = .macX550EMx || mac = .macX550EMa

def rxGranted (mac : MacType) : HwtstampRxFilter → Option HwtstampRxFilter
  | .none => some .none
  | .some | .other => none
  | .ptpV1L4Sync => if mac.isX550Family then some .all else some .ptpV1L4Sync
  | .ptpV1L4DelayReq => if mac.isX550Family then some .all else some .ptpV1L4DelayReq
  | .ptpV1L4Event | .ntpAll | .all => if mac.isX550Family then some .all else none
  | .ptpV2Event | .ptpV2L2Event | .ptpV2L4Event | .ptpV2Sync | .ptpV2L2Sync | .ptpV2L4Sync
  | .ptpV2DelayReq | .ptpV2L2DelayReq | .ptpV2L4DelayReq =>
    if mac.isX550Family then some .all else some .ptpV2Event

/-- The value of `RXMTRL`. -/
def HwtstampRxFilter.messages : HwtstampRxFilter → U32
  | .none => 0
  | .ptpV1L4DelayReq => ptpEvPort ||| rxmtrlV1DelayReqMsg
  | _ => ptpEvPort

/-- The mode bits of `TSYNCRXCTL`. -/
def HwtstampRxFilter.rxCtl : HwtstampRxFilter → U32
  | .none => 0
  | .ptpV1L4Sync | .ptpV1L4DelayReq => tsyncrxctlEnabled ||| tsyncrxctlTypeL4V1
  | .ptpV2Event => tsyncrxctlEnabled ||| tsyncrxctlTypeEventV2
  | _ => tsyncrxctlEnabled ||| tsyncrxctlTypeAll ||| tsyncrxctlTsipUtEn

def rxMode (mac : MacType) (f : HwtstampRxFilter) (messages : U32) : RxChoice where
  rxCtl := f.rxCtl
  mtrl := messages
  rxFilter := f
  isL2 := f = .ptpV2Event || f = .all
  enabled := f ≠ .none
  inRegister := some (f ≠ .none && !mac.isX550Family)

section

variable {mac : MacType}

/-- The request is widened, and the mode that of the wider filter, but for the messages. -/
theorem rxChoice_perPacket (hmac : mac ≠ .macE610) (f : HwtstampRxFilter) :
    (rxChoice mac f).map (RxChoice.perPacket mac) =
      (rxGranted mac f).map fun g => rxMode mac g f.messages := by
  cases mac
  case macE610 => exact absurd rfl hmac
  all_goals cases f <;> rfl

variable {g : HwtstampRxFilter} {config : HwtstampConfig} {cfg : PtpCfg} {s : TsState}

theorem rxGranted_rxGranted {f : HwtstampRxFilter}
    (h : rxGranted mac f = some g) : rxGranted mac g = some g := by
  cases hx : mac.isX550Family <;> cases f <;> simp [rxGranted, hx] at h <;> subst h <;>
    simp [rxGranted, hx]

/-- The mode for `config`, `g` being the filter granted. -/
def TsState.withMode (mac : MacType) (s : TsState) (config : HwtstampConfig)
    (g : HwtstampRxFilter) : TsState :=
  { s with
    ptp := ptpClearTxTimestamp { s.ptp with
      regs :=
        { tsynctxctl := s.ptp.regs.tsynctxctl &&& ~~~tsynctxctlEnabled ||| config.txType.ctl
          tsyncrxctl := s.ptp.regs.tsyncrxctl &&& ~~~(tsyncrxctlEnabled ||| tsyncrxctlTypeMask) |||
            g.rxCtl
          rxmtrl := config.rxFilter.messages
          etqf1588 := if g = .ptpV2Event || g = .all then etqf1588On else 0 }
      rxHwtstampEnabled := g ≠ .none
      rxHwtstampInRegister := g ≠ .none && !mac.isX550Family }
    tstampConfig := { config with rxFilter := g } }

def HwtstampConfig.Malformed (config : HwtstampConfig) : Prop :=
  config.flags ≠ 0 ∨ config.txType = .other

instance (config : HwtstampConfig) : Decidable config.Malformed :=
  inferInstanceAs (Decidable (_ ∨ _))

theorem ptpSetTimestampMode_malformed (cfg : PtpCfg) (s : PtpTx) (h : config.Malformed) :
    (ptpSetTimestampMode cfg s config).1 ≠ 0 ∧ (ptpSetTimestampMode cfg s config).2.2 = s := by
  unfold ptpSetTimestampMode
  by_cases hflags : config.flags ≠ 0
  · rw [if_pos hflags]
    exact ⟨(by decide : eInval ≠ 0), rfl⟩
  · rw [if_neg hflags, if_pos (h.resolve_left hflags)]
    exact ⟨(by decide : eRange ≠ 0), rfl⟩

theorem ptpSetTimestampMode_refused (hmac : cfg.mac ≠ .macE610) (s : PtpTx)
    (hwf : ¬ config.Malformed) (h : rxGranted cfg.mac config.rxFilter = none) :
    (ptpSetTimestampMode cfg s config).1 = eRange ∧ (ptpSetTimestampMode cfg s config).2.2 =
      { s with rxHwtstampEnabled := false, rxHwtstampInRegister := false } := by
  have hchoice : rxChoice cfg.mac config.rxFilter = none := by
    have hmap := rxChoice_perPacket hmac config.rxFilter
    rw [h, map_none, map_eq_none_iff] at hmap
    exact hmap
  unfold HwtstampConfig.Malformed at hwf
  push Not at hwf
  unfold ptpSetTimestampMode
  rw [if_neg (not_not.mpr hwf.1), if_neg hwf.2, hchoice]
  exact ⟨rfl, rfl⟩

theorem ptpSetTimestampMode_granted (hmac : cfg.mac ≠ .macE610) (s : TsState)
    (hwf : ¬ config.Malformed) (h : rxGranted cfg.mac config.rxFilter = some g) :
    ptpSetTimestampMode cfg s.ptp config =
      (0, (s.withMode cfg.mac config g).tstampConfig, (s.withMode cfg.mac config g).ptp) := by
  have hmap := rxChoice_perPacket hmac config.rxFilter
  rw [h, map_some, map_eq_some_iff] at hmap
  obtain ⟨r, hr, hmode⟩ := hmap
  unfold HwtstampConfig.Malformed at hwf
  push Not at hwf
  unfold ptpSetTimestampMode
  rw [if_neg (not_not.mpr hwf.1), if_neg hwf.2, hr]
  simp only [hmode]
  rfl

theorem setTsConfig_cases (hmac : cfg.mac ≠ .macE610) (s : TsState) (q : TsRequest) :
    ((∀ config ∈ q.config, config.Malformed) ∧ (setTsConfig cfg s q).1 ≠ 0 ∧
        (setTsConfig cfg s q).2 = s) ∨
      (∃ config ∈ q.config, ¬ config.Malformed ∧
        ((rxGranted cfg.mac config.rxFilter = none ∧ (setTsConfig cfg s q).1 ≠ 0 ∧
            (setTsConfig cfg s q).2 = { s with
              ptp := { s.ptp with rxHwtstampEnabled := false, rxHwtstampInRegister := false } }) ∨
          ∃ g, rxGranted cfg.mac config.rxFilter = some g ∧
            setTsConfig cfg s q =
              (if q.copiedBack then 0 else eFault, s.withMode cfg.mac config g))) := by
  have hchoice : ∀ p config, ptpSetTsConfig cfg p config = ptpSetTimestampMode cfg p config :=
    fun p config => if_neg hmac
  unfold setTsConfig
  cases hc : q.config with
  | none =>
    refine Or.inl ⟨fun config h => ?_, (by decide : eFault ≠ 0), rfl⟩
    cases h
  | some config =>
    simp only [hchoice]
    by_cases hwf : config.Malformed
    · obtain ⟨herr, hsame⟩ := ptpSetTimestampMode_malformed cfg s.ptp hwf
      refine Or.inl ⟨?_, ?_, ?_⟩
      · intro config' h
        rw [mem_some_iff] at h
        exact h ▸ hwf
      · rwa [if_pos herr]
      · rw [if_pos herr, hsame]
    · refine Or.inr ⟨config, rfl, hwf, ?_⟩
      cases hg : rxGranted cfg.mac config.rxFilter with
      | none =>
        obtain ⟨herr, hcleared⟩ := ptpSetTimestampMode_refused hmac s.ptp hwf hg
        have hne : (ptpSetTimestampMode cfg s.ptp config).1 ≠ 0 := by
          rw [herr]
          decide
        refine Or.inl ⟨rfl, ?_, ?_⟩
        · rwa [if_pos hne]
        · rw [if_pos hne, hcleared]
      | some g =>
        refine Or.inr ⟨g, rfl, ?_⟩
        rw [ptpSetTimestampMode_granted hmac s hwf hg, if_neg (not_not.mpr rfl)]
        rfl

/-- **The mode in force is that of the stored configuration.** -/
structure TsInv (mac : MacType) (s : TsState) : Prop where
  wellFormed : ¬ s.tstampConfig.Malformed
  granted : rxGranted mac s.tstampConfig.rxFilter = some s.tstampConfig.rxFilter
  enabled : s.ptp.rxHwtstampEnabled = decide (s.tstampConfig.rxFilter ≠ .none)
  inRegister : s.ptp.rxHwtstampInRegister =
    (decide (s.tstampConfig.rxFilter ≠ .none) && !mac.isX550Family)
  tsynctxctl : s.ptp.regs.tsynctxctl &&& ~~~tsynctxctlEnabled ||| s.tstampConfig.txType.ctl =
    s.ptp.regs.tsynctxctl
  tsyncrxctl : s.ptp.regs.tsyncrxctl &&& ~~~(tsyncrxctlEnabled ||| tsyncrxctlTypeMask) |||
    s.tstampConfig.rxFilter.rxCtl = s.ptp.regs.tsyncrxctl
  etqf1588 : s.ptp.regs.etqf1588 =
    if s.tstampConfig.rxFilter = .ptpV2Event || s.tstampConfig.rxFilter = .all then
      etqf1588On else 0

theorem write_write (x m c : U32) : (x &&& ~~~m ||| c) &&& ~~~m ||| c = x &&& ~~~m ||| c := by
  apply eq_of_getLsbD_eq
  intro j hj
  simp only [getLsbD_or, getLsbD_and, getLsbD_not, hj, decide_true, Bool.true_and]
  cases x.getLsbD j <;> cases m.getLsbD j <;> cases c.getLsbD j <;> rfl

theorem TsState.withMode_inv (s : TsState)
    (hwf : ¬ config.Malformed) (h : rxGranted mac config.rxFilter = some g) :
    TsInv mac (s.withMode mac config g) where
  wellFormed := hwf
  granted := rxGranted_rxGranted h
  enabled := rfl
  inRegister := rfl
  tsynctxctl := write_write _ _ _
  tsyncrxctl := write_write _ _ _
  etqf1588 := rfl

/-- Of an adapter just allocated or one that was suspended. -/
structure TsReady (mac : MacType) (s : TsState) : Prop where
  wellFormed : ¬ s.tstampConfig.Malformed
  granted : rxGranted mac s.tstampConfig.rxFilter = some s.tstampConfig.rxFilter
  inv : s.ptpClock = false → TsInv mac s

theorem ptpReset_inv (hmac : cfg.mac ≠ .macE610) (hwf : ¬ s.tstampConfig.Malformed)
    (h : rxGranted cfg.mac s.tstampConfig.rxFilter = some g) : TsInv cfg.mac (ptpReset cfg s) := by
  unfold ptpReset
  rw [ptpSetTimestampMode_granted hmac s hwf h]
  exact s.withMode_inv hwf h

theorem ptpInit_inv (hmac : cfg.mac ≠ .macE610)
    (h : TsReady cfg.mac s) (registered : Bool) : TsInv cfg.mac (ptpInit cfg registered s) := by
  unfold ptpInit ptpCreateClock
  cases hclock : s.ptpClock with
  | true => exact ptpReset_inv hmac h.wellFormed h.granted
  | false =>
    cases registered with
    | true =>
      have hflags : s.tstampConfig.flags = 0 := not_not.mp fun hne => h.wellFormed (Or.inl hne)
      refine ptpReset_inv hmac (g := .none) ?_ rfl
      rintro (hne | hother)
      · exact hne hflags
      · cases hother
    | false => exact h.inv hclock

/-- **Flags, registers and stored configuration agree.** -/
structure TsCoherent (s : TsState) : Prop where
  flag_iff_reg : s.ptp.rxHwtstampEnabled = true ↔ s.ptp.regs.tsyncrxctl &&& tsyncrxctlEnabled ≠ 0
  reg_iff_stored :
    s.ptp.regs.tsyncrxctl &&& tsyncrxctlEnabled ≠ 0 ↔ s.tstampConfig.rxFilter ≠ .none
  tx_iff_stored :
    s.ptp.regs.tsynctxctl &&& tsynctxctlEnabled ≠ 0 ↔ s.tstampConfig.txType ≠ .off

structure TsUnchanged (s s' : TsState) : Prop where
  rxHwtstampEnabled : s'.ptp.rxHwtstampEnabled = s.ptp.rxHwtstampEnabled
  rxHwtstampInRegister : s'.ptp.rxHwtstampInRegister = s.ptp.rxHwtstampInRegister
  regs : s'.ptp.regs = s.ptp.regs
  tstampConfig : s'.tstampConfig = s.tstampConfig

/-- Coherent after it, and an error has changed nothing. -/
def CallCoherent (cfg : PtpCfg) (s : TsState) (q : TsRequest) : Prop :=
  TsCoherent (setTsConfig cfg s q).2 ∧
    ((setTsConfig cfg s q).1 ≠ 0 → TsUnchanged s (setTsConfig cfg s q).2)

theorem HwtstampRxFilter.rxCtl_enabled (f : HwtstampRxFilter) :
    f.rxCtl &&& tsyncrxctlEnabled ≠ 0 ↔ f ≠ .none := by
  cases f <;> decide

theorem HwtstampTxType.ctl_enabled (t : HwtstampTxType) :
    t.ctl &&& tsynctxctlEnabled ≠ 0 ↔ t ≠ .off := by
  cases t <;> decide

theorem TsInv.coherent (h : TsInv mac s) : TsCoherent s := by
  have hrx : s.ptp.regs.tsyncrxctl &&& tsyncrxctlEnabled =
      s.tstampConfig.rxFilter.rxCtl &&& tsyncrxctlEnabled := by
    rw [← h.tsyncrxctl]
    cases s.tstampConfig.rxFilter <;> exact write_and_of_covered (by decide) _
  have htx : s.ptp.regs.tsynctxctl &&& tsynctxctlEnabled =
      s.tstampConfig.txType.ctl &&& tsynctxctlEnabled := by
    rw [← h.tsynctxctl]
    cases s.tstampConfig.txType <;> exact write_and_of_covered (by decide) _
  refine ⟨?_, ?_, ?_⟩
  · rw [hrx, HwtstampRxFilter.rxCtl_enabled, h.enabled, decide_eq_true_eq]
  · rw [hrx, HwtstampRxFilter.rxCtl_enabled]
  · rw [htx, HwtstampTxType.ctl_enabled]

def TsState.InForce (mac : MacType) (s : TsState) (config : HwtstampConfig) : Prop :=
  config.txType = s.tstampConfig.txType ∧
    rxGranted mac config.rxFilter = some s.tstampConfig.rxFilter ∧
      config.rxFilter.messages = s.ptp.regs.rxmtrl

/-- A filter is refused only while no timestamps are received, and a lost result is that of the mode
in force. -/
def TsRequest.Ok (mac : MacType) (s : TsState) (q : TsRequest) : Prop :=
  ∀ config ∈ q.config, ¬ config.Malformed →
    (rxGranted mac config.rxFilter = none → s.tstampConfig.rxFilter = .none) ∧
      (rxGranted mac config.rxFilter ≠ none → q.copiedBack = false → s.InForce mac config)

theorem TsInv.withMode_unchanged (h : TsInv mac s) (hwf : ¬ config.Malformed)
    (hin : s.InForce mac config) :
    TsUnchanged s (s.withMode mac config s.tstampConfig.rxFilter) := by
  obtain ⟨htx, -, hmsg⟩ := hin
  refine ⟨h.enabled.symm, h.inRegister.symm, ?_, ?_⟩
  · simp only [TsState.withMode, ptpClearTxTimestamp, PtpTx.freeSlot, PtpTx.kfreeSkb, htx, hmsg,
      h.tsynctxctl, h.tsyncrxctl, ← h.etqf1588]
  · have hflags : config.flags = s.tstampConfig.flags := by
      have h1 : config.flags = 0 := not_not.mp fun hne => hwf (Or.inl hne)
      have h2 : s.tstampConfig.flags = 0 := not_not.mp fun hne => h.wellFormed (Or.inl hne)
      rw [h1, h2]
    simp only [TsState.withMode, htx, hflags]

theorem TsUnchanged.inForce (hg : rxGranted mac config.rxFilter = some g)
    (h : TsUnchanged s (s.withMode mac config g)) : s.InForce mac config := by
  have hconfig := h.tstampConfig
  simp only [TsState.withMode] at hconfig
  refine ⟨?_, ?_, ?_⟩
  · rw [← hconfig]
  · rw [hg, ← hconfig]
  · rw [← h.regs]
    rfl

theorem TsInv.refused (h : TsInv mac s) (hnone : s.tstampConfig.rxFilter = .none) :
    ({ s with ptp := { s.ptp with rxHwtstampEnabled := false, rxHwtstampInRegister := false } } :
      TsState) = s := by
  have hen := h.enabled
  have hreg := h.inRegister
  obtain ⟨ptp, config, clock⟩ := s
  obtain ⟨⟩ := ptp
  simp_all

end

theorem setTsConfig_inv {cfg : PtpCfg} (hmac : cfg.mac ≠ .macE610) {s : TsState} {q : TsRequest}
    (h : TsInv cfg.mac s) (hok : q.Ok cfg.mac s) : TsInv cfg.mac (setTsConfig cfg s q).2 := by
  rcases setTsConfig_cases hmac s q with ⟨-, -, hs⟩ | ⟨config, hc, hwf, ⟨hg, -, hs⟩ | ⟨g, hg, hs⟩⟩
  · rwa [hs]
  · rw [hs, h.refused ((hok config hc hwf).1 hg)]
    exact h
  · rw [hs]
    exact s.withMode_inv hwf hg

theorem callCoherent_iff {cfg : PtpCfg} (hmac : cfg.mac ≠ .macE610) {s : TsState} (q : TsRequest)
    (h : TsInv cfg.mac s) : CallCoherent cfg s q ↔ q.Ok cfg.mac s := by
  unfold CallCoherent TsRequest.Ok
  rcases setTsConfig_cases hmac s q with
    ⟨hmal, -, hs⟩ | ⟨config, hc, hwf, ⟨hg, herr, hs⟩ | ⟨g, hg, hs⟩⟩
  · rw [hs]
    exact ⟨fun _ config hc hwf => absurd (hmal config hc) hwf,
      fun _ => ⟨h.coherent, fun _ => ⟨rfl, rfl, rfl, rfl⟩⟩⟩
  · constructor
    · rintro ⟨-, hun⟩ config' hc' hwf'
      obtain rfl := mem_unique hc hc'
      refine ⟨fun _ => ?_, fun hne => absurd hg hne⟩
      -- the flag has been cleared, so it was clear before
      have hflag := (hun herr).rxHwtstampEnabled
      rw [hs, h.enabled] at hflag
      by_contra hne
      rw [decide_eq_true hne] at hflag
      cases hflag
    · intro hok
      rw [hs, h.refused ((hok config hc hwf).1 hg)]
      exact ⟨h.coherent, fun _ => ⟨rfl, rfl, rfl, rfl⟩⟩
  · constructor
    · rintro ⟨-, hun⟩ config' hc' hwf'
      obtain rfl := mem_unique hc hc'
      refine ⟨fun hnone => ?_, fun _ hback => ?_⟩
      · rw [hg] at hnone
        cases hnone
      · rw [hs, hback] at hun
        exact (hun (show eFault ≠ 0 by decide)).inForce hg
    · intro hok
      rw [hs]
      refine ⟨(s.withMode_inv hwf hg).coherent, fun hne => ?_⟩
      have hback : q.copiedBack = false := by
        cases hb : q.copiedBack with
        | false => rfl
        | true => exact absurd (by rw [hb]; rfl) hne
      have hin := (hok config hc hwf).2 (by rw [hg]; exact some_ne_none g) hback
      have hEq := hin.2.1
      rw [hg, Option.some.injEq] at hEq
      rw [hEq]
      exact h.withMode_unchanged hwf hin

/-- **Every call is as documented if and only if** no filter is refused while timestamps are
received, and no result is lost unless it is that of the mode in force. -/
theorem tsConfig_coherent_iff (cfg : PtpCfg) (hmac : cfg.mac ≠ .macE610) (s : TsState)
    (hs : TsReady cfg.mac s) (registered : Bool) (qs : List TsRequest) :
    Along (fun s q => (setTsConfig cfg s q).2) (CallCoherent cfg) (ptpInit cfg registered s) qs ↔
      Along (fun s q => (setTsConfig cfg s q).2) (fun s q => q.Ok cfg.mac s)
        (ptpInit cfg registered s) qs := by
  refine along_iff_along (fun _ _ => True)
    (fun s q (h : TsInv cfg.mac s) _ hok => setTsConfig_inv hmac h hok)
    (fun s q h _ => callCoherent_iff hmac q h) (ptpInit_inv hmac hs registered) ?_
  exact along_of_forall (q := fun _ => True) _ qs fun _ _ => trivial

def TsState.allocated : TsState where
  ptp := {}
  tstampConfig := { txType := .off, rxFilter := .none }
  ptpClock := false

theorem TsState.allocated_ready (mac : MacType) : TsReady mac TsState.allocated := by
  have hinv : TsInv mac TsState.allocated := by
    constructor
    case wellFormed => decide
    all_goals cases mac <;> rfl
  exact ⟨hinv.wellFormed, hinv.granted, fun _ => hinv⟩

def filterRequest (f : HwtstampRxFilter) : TsRequest :=
  ⟨some { txType := .on, rxFilter := f }, true⟩

theorem tsConfig_coherent_v2 :
    Along (fun s q => (setTsConfig ⟨.mac82599EB, 250, true⟩ s q).2)
      (CallCoherent ⟨.mac82599EB, 250, true⟩)
      (ptpInit ⟨.mac82599EB, 250, true⟩ true TsState.allocated)
      [filterRequest .ptpV2Sync, filterRequest .none] := by
  refine (tsConfig_coherent_iff ⟨.mac82599EB, 250, true⟩ (by decide) _
    (TsState.allocated_ready _) true _).mpr ⟨?_, ?_, trivial⟩ <;>
  · intro config hc _
    cases hc
    refine ⟨fun h => ?_, fun _ h => ?_⟩ <;> cases h

/-- The 82599 returns `-ERANGE` with the flag cleared and the register enabled. -/
theorem tsConfig_refused_filter :
    let cfg : PtpCfg := ⟨.mac82599EB, 250, true⟩
    let s := (setTsConfig cfg (ptpInit cfg true TsState.allocated) (filterRequest .ptpV2Sync)).2
    let r := setTsConfig cfg s (filterRequest .all)
    s.ptp.rxHwtstampEnabled = true ∧ r.1 = eRange ∧ r.2.ptp.rxHwtstampEnabled = false ∧
      r.2.ptp.regs.tsyncrxctl &&& tsyncrxctlEnabled ≠ 0 ∧
      ¬ CallCoherent cfg s (filterRequest .all) := by
  refine ⟨by decide, by decide, by decide, by decide, fun h => ?_⟩
  exact absurd (h.1.flag_iff_reg.mpr (by decide)) (by decide)

end Ixgbe
