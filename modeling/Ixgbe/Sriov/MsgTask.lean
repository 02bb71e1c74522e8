import Ixgbe.Sriov.Effects

/-! # The message task

`ixgbe_msg_task` serves each VF's reset, message and acknowledgement. Without `clear_to_send` a VF
is only answered. -/

namespace Ixgbe

open EventRun List Function

section

variable (cfg : AdapterCfg) (a : Adapter)

def rcvAckFromVf (vf : ℕ) : Adapter :=
  -- a VF that is not clear to send should not be reading either
  if (a.vfinfo vf).clearToSend = false then writeMbx a [msgtypeFailure] vf else a

/-- Of a malicious VF in `ixgbe_check_mdd_event`. -/
def restartMaliciousVf (vf : ℕ) : Adapter :=
  writeMbx (a.modifyVf vf fun v => { v with clearToSend := false }) [pfControlMsg ||| msgtypeCts] vf

/-- With the bitmap that `mdd_event` fills in; only the X550 family has the operation. -/
def checkMddEvent (vfBitmap : BitVec 64) : Adapter :=
  if cfg.macType.rank ≥ MacType.macX550.rank then
    ((List.range 64).filter vfBitmap.getLsbD).foldl restartMaliciousVf a
  else a

/-- When the task comes to the VF. -/
structure VfSignals where
  rst : Bool
  /-- What the read of the mailbox returns. -/
  msg : Option (ℤ × MsgBuf)
  ack : Bool

def serveVf (cfg : AdapterCfg) (a : Adapter) (vf : ℕ) (sig : VfSignals) : Adapter :=
  let a := if sig.rst then vfResetEvent cfg a vf else a
  let a := match sig.msg with
    | some read => (rcvMsgFromVf cfg a vf read).2
    | none => a
  if sig.ack then rcvAckFromVf a vf else a

/-- `vfBitmap` is `none` without `IXGBE_FLAG_MDD_ENABLED`. -/
def msgTask (vfBitmap : Option (BitVec 64)) (sigs : Fin cfg.numVfs → VfSignals) : Adapter :=
  let a := match vfBitmap with
    | some bits => checkMddEvent cfg a bits
    | none => a
  (List.finRange cfg.numVfs).foldl (fun a (vf : Fin cfg.numVfs) => serveVf cfg a vf (sigs vf)) a

inductive LinkState
  | auto
  | enable
  | disable
  deriving DecidableEq, Repr

/-- `down` is the bit `__IXGBE_DOWN` of the adapter. -/
def LinkState.linkEnable (down : Bool) : LinkState → Bool
  | .auto => !down
  | .enable => true
  | .disable => false

def setVfLinkState (vf : ℕ) (state : LinkState) (down : Bool) : Adapter :=
  let a := a.modifyVf vf fun v => { v with linkEnable := state.linkEnable down }
  let a := setVfRxTx cfg a vf
  -- restart the VF
  let a := a.modifyVf vf fun v => { v with clearToSend := false }
  pingVf a vf

def ndoSetVfLinkState (vf state : ℤ) (down : Bool) : ℤ × Adapter :=
  if vf < 0 ∨ vf ≥ cfg.numVfs then (eInval, a)
  -- enabling is not supported
  else if state = 1 then (0, a)
  else if state = 2 then (0, setVfLinkState cfg a vf.toNat .disable down)
  else if state = 0 then (0, setVfLinkState cfg a vf.toNat .auto down)
  else (eInval, a)

inductive TaskEvent (numVfs : ℕ)
  /-- A message, a hardware reset, a request of the administrator or of the PF. -/
  | adapter (e : Event numVfs)
  | ack (vf : Fin numVfs)
  /-- No check confines the hardware's bitmap to the VFs that exist. -/
  | malicious (vf : ℕ)
  | linkState (vf : Fin numVfs) (state : LinkState) (down : Bool)
  | ndoLinkState (vf state : ℤ) (down : Bool)

def taskStep : TaskEvent cfg.numVfs → Adapter
  | .adapter e => step cfg a e
  | .ack vf => rcvAckFromVf a vf
  | .malicious vf => restartMaliciousVf a vf
  | .linkState vf state down => setVfLinkState cfg a vf state down
  | .ndoLinkState vf state down => (ndoSetVfLinkState cfg a vf state down).2

def vfEvents {n : ℕ} (vf : Fin n) (sig : VfSignals) : List (TaskEvent n) :=
  (if sig.rst then [.adapter (.vfReset vf)] else []) ++
    (match sig.msg with
      | some read => [.adapter (.msg vf read)]
      | none => []) ++
    if sig.ack then [.ack vf] else []

def taskEvents (vfBitmap : Option (BitVec 64)) (sigs : Fin cfg.numVfs → VfSignals) :
    List (TaskEvent cfg.numVfs) :=
  (match vfBitmap with
    | some bits =>
      if cfg.macType.rank ≥ MacType.macX550.rank then
        ((List.range 64).filter bits.getLsbD).map .malicious
      else []
    | none => []) ++
    (List.finRange cfg.numVfs).flatMap fun vf => vfEvents vf (sigs vf)

end

section

variable {cfg : AdapterCfg}

theorem serveVf_eq_run (a : Adapter) (vf : Fin cfg.numVfs) (sig : VfSignals) :
    serveVf cfg a vf sig = run (taskStep cfg) a (vfEvents vf sig) := by
  obtain ⟨rst, msg, ack⟩ := sig
  cases rst <;> cases msg <;> cases ack <;> rfl

theorem msgTask_eq_run (a : Adapter) (vfBitmap : Option (BitVec 64))
    (sigs : Fin cfg.numVfs → VfSignals) :
    msgTask cfg a vfBitmap sigs = run (taskStep cfg) a (taskEvents cfg vfBitmap sigs) := by
  simp only [msgTask, taskEvents, serveVf_eq_run, run, foldl_append, foldl_flatMap]
  congr 1
  cases vfBitmap with
  | none => rfl
  | some bits =>
    dsimp only [checkMddEvent]
    split_ifs
    · rw [foldl_map]
      rfl
    · rfl

theorem serveVf_modifiesVf (a : Adapter) (vf : ℕ) (sig : VfSignals) :
    ModifiesVf vf a.vfinfo (serveVf cfg a vf sig).vfinfo := by
  have hrst := vfResetEvent_modifiesVf cfg a vf
  have hmsg : ∀ b read, ModifiesVf vf b.vfinfo (rcvMsgFromVf cfg b vf read).2.vfinfo := by
    intro b read
    obtain ⟨c, m, hc, hs⟩ := rcvMsgFromVf_handled cfg b vf read
    rw [hs]
    exact hc.modifiesVf
  have hack : ∀ b, (rcvAckFromVf b vf).vfinfo = b.vfinfo := by
    intro b
    unfold rcvAckFromVf
    split_ifs <;> rfl
  obtain ⟨rst, msg, ack⟩ := sig
  have hserved : ModifiesVf vf a.vfinfo (serveVf cfg a vf ⟨rst, msg, false⟩).vfinfo := by
    cases rst <;> cases msg
    · exact .refl _ _
    · exact hmsg a _
    · exact hrst
    · exact hrst.trans (hmsg _ _)
  cases ack
  · exact hserved
  · exact (hack _).symm ▸ hserved

/-- Its administrator's settings, and all of it if it is silent. -/
structure VfKept (silent : Prop) (u v : VfDataStorage) : Prop where
  admin : AdminSame u v
  same : silent → v = u

theorem VfKept.tail {silent : Prop} {u : VfDataStorage} {b c : Adapter} {v w : ℕ}
    (h : VfKept silent u (b.vfinfo w)) (hc : ModifiesVf v b.vfinfo c.vfinfo)
    (hne : silent → w ≠ v) : VfKept silent u (c.vfinfo w) := by
  obtain ⟨h1, h2, h3, h4, h5, h6, h7⟩ := hc.adminSame w
  obtain ⟨ha, hsame⟩ := h
  exact ⟨⟨h1.trans ha.1, h2.trans ha.2, h3.trans ha.3, h4.trans ha.4, h5.trans ha.5, h6.trans ha.6,
    h7.trans ha.7⟩, fun hs => (hc.other (hne hs)).trans (hsame hs)⟩

/-- VF `w` signals nothing and is not found malicious. -/
def SilentPass {n : ℕ} (w : Fin n) (p : Option (BitVec 64) × (Fin n → VfSignals)) : Prop :=
  (∀ bits, p.1 = some bits → bits.getLsbD w = false) ∧ p.2 w = ⟨false, none, false⟩

/-- **Passes of the message task** keep the administrator's settings, and all of a silent VF. -/
theorem msgTask_passes_kept (a : Adapter) (w : Fin cfg.numVfs)
    (passes : List (Option (BitVec 64) × (Fin cfg.numVfs → VfSignals))) :
    VfKept (∀ p ∈ passes, SilentPass w p) (a.vfinfo w)
      ((passes.foldl (fun a p => msgTask cfg a p.1 p.2) a).vfinfo w) := by
  let P (c : Adapter) : Prop := VfKept (∀ p ∈ passes, SilentPass w p) (a.vfinfo w) (c.vfinfo w)
  refine foldlRecOn (motive := P) passes _ ⟨.refl _, fun _ => rfl⟩ fun b hb p hp => ?_
  refine foldlRecOn (motive := P) _ _ ?_ fun c hc vf _ => ?_
  · cases hbits : p.1 with
    | none => exact hb
    | some bits =>
      dsimp only [checkMddEvent]
      split_ifs
      · refine foldlRecOn (motive := P) _ _ hb fun c hc v hv =>
          VfKept.tail (v := v) hc ⟨_, rfl, ⟨rfl, rfl, rfl, rfl, rfl, rfl, rfl⟩⟩ fun hs hw => ?_
        have hset := (mem_filter.mp hv).2
        rw [← hw, (hs p hp).1 bits hbits] at hset
        cases hset
      · exact hb
  · by_cases hsig : p.2 vf = ⟨false, none, false⟩
    · rwa [show serveVf cfg c vf (p.2 vf) = c by rw [hsig]; rfl]
    · exact VfKept.tail hc (serveVf_modifiesVf c vf _) fun hs hw =>
        hsig (Fin.ext hw ▸ (hs p hp).2)

end

def IsResetRequest (read : ℤ × MsgBuf) : Prop := read.1 = 0 ∧ read.2 0 = vfReset

/-- After it the VF has to ask for a reset before it is served. -/
def ClosesGate {n : ℕ} (vf : ℕ) (a : Adapter) : TaskEvent n → Prop
  | .adapter (.vfReset w) => (w : ℕ) = vf
  | .adapter (.setVfTrust w setting) => w = vf ∧ (a.vfinfo vf).trusted ≠ setting
  | .malicious w => w = vf
  | .linkState w _ _ => (w : ℕ) = vf
  | .ndoLinkState w state _ => w = vf ∧ (state = 0 ∨ state = 2)
  | _ => False

def HwReset {n : ℕ} (vf : ℕ) : TaskEvent n → Prop
  | .adapter (.vfReset w) => (w : ℕ) = vf
  | _ => False

def AsksReset {n : ℕ} (vf : ℕ) : TaskEvent n → Prop
  | .adapter (.msg w read) => (w : ℕ) = vf ∧ IsResetRequest read
  | _ => False

/-- Until the VF asks for a reset, its other messages change only the mailbox. -/
def GateClosed (cfg : AdapterCfg) (vf : Fin cfg.numVfs) (a : Adapter) : Prop :=
  ∀ (es : List (TaskEvent cfg.numVfs)) (read : ℤ × MsgBuf), (∀ e ∈ es, ¬ AsksReset vf e) →
    ¬ IsResetRequest read → ∃ m : Mbx,
      (rcvMsgFromVf cfg (run (taskStep cfg) a es) vf read).2 =
        { run (taskStep cfg) a es with mbx := m }

section

variable {cfg : AdapterCfg} {a : Adapter} {vf : Fin cfg.numVfs}

theorem rcvMsgFromVf_gated (hcts : (a.vfinfo vf).clearToSend = false) {read : ℤ × MsgBuf}
    (hread : ¬ IsResetRequest read) :
    ∃ m : Mbx, (rcvMsgFromVf cfg a vf read).2 = { a with mbx := m } := by
  unfold rcvMsgFromVf
  by_cases hret : read.1 ≠ 0
  · rw [if_pos hret]
    exact ⟨a.mbx, rfl⟩
  rw [if_neg hret]
  by_cases htype : read.2 0 &&& (msgtypeSuccess ||| msgtypeFailure) ≠ 0
  · rw [if_pos htype]
    exact ⟨a.mbx, rfl⟩
  rw [if_neg htype, if_neg fun hc => hread ⟨not_not.mp hret, hc⟩, if_pos hcts]
  exact ⟨_, rfl⟩

theorem update_gate {f : ℕ → VfDataStorage} {x : VfDataStorage} (hx : x.clearToSend = false)
    {v w : ℕ} (h : w = v ∨ (f w).clearToSend = false) :
    (update f v x w).clearToSend = false := by
  by_cases hw : w = v
  · rw [hw, update_self]
    exact hx
  · rw [update_of_ne hw]
    exact h.resolve_left hw

theorem step_keeps_gate (e : Event cfg.numVfs) (he : ¬ AsksReset vf (.adapter e))
    (hcts : (a.vfinfo vf).clearToSend = false) :
    ((step cfg a e).vfinfo vf).clearToSend = false := by
  cases e with
  | msg w read =>
    rw [step]
    by_cases hw : (w : ℕ) = vf
    · obtain rfl : w = vf := Fin.ext hw
      obtain ⟨m, hs⟩ := rcvMsgFromVf_gated hcts fun hread => he ⟨rfl, hread⟩
      rw [hs]
      exact hcts
    · obtain ⟨b, m, hb, hs⟩ := rcvMsgFromVf_handled cfg a w read
      rw [hs]
      rw [hb.modifiesVf.other (Ne.symm hw)]
      exact hcts
  | vfReset w =>
    rw [step, vfResetEvent_vfinfo]
    by_cases hw : (vf : ℕ) = w
    · rw [← hw, update_self]
      exact hcts
    · rw [update_of_ne hw]
      exact hcts
  | addVid _ => exact hcts
  | killVid _ => exact hcts
  | rxMode dev =>
    rw [step, setRxMode_vfinfo]
    exact hcts
  | ucSync _ => exact hcts
  | ucUnsync _ => exact hcts
  | setVfTrust w setting =>
    rw [step]
    rcases ndoSetVfTrust_cases cfg a w setting with hs | ⟨v, m, -, -, -, hs⟩ <;> rw [hs]
    · exact hcts
    · exact update_gate rfl (.inr hcts)
  | setVfMac w mac =>
    obtain ⟨_, _, hs⟩ := ndoSetVfMac_vfinfo cfg a w mac vf
    rw [step, hs]
    exact hcts
  | setVfVlan w vlan qos proto =>
    obtain ⟨_, _, hs⟩ := ndoSetVfVlan_vfinfo cfg a w vlan qos proto vf
    rw [step, hs]
    exact hcts
  | reset _ => exact hcts

theorem setVfLinkState_vfinfo (v : ℕ) (state : LinkState) (down : Bool) :
    ∃ x : VfDataStorage, x.clearToSend = false ∧
      (setVfLinkState cfg a v state down).vfinfo = update a.vfinfo v x := by
  refine ⟨{ a.vfinfo v with clearToSend := false, linkEnable := state.linkEnable down }, rfl, ?_⟩
  simp only [setVfLinkState, pingVf, writeMbx, setVfRxTx, Adapter.modifyVf, update_idem,
    update_self]

theorem setVfLinkState_gate (state : LinkState) (down : Bool) {v w : ℕ}
    (h : w = v ∨ (a.vfinfo w).clearToSend = false) :
    ((setVfLinkState cfg a v state down).vfinfo w).clearToSend = false := by
  obtain ⟨x, hx, hs⟩ : ∃ x : VfDataStorage, x.clearToSend = false ∧
      (setVfLinkState cfg a v state down).vfinfo = update a.vfinfo v x :=
    setVfLinkState_vfinfo v state down
  rw [hs]
  exact update_gate hx h

theorem ndoSetVfLinkState_keeps_gate (v state : ℤ) (down : Bool)
    (hcts : (a.vfinfo vf).clearToSend = false) :
    ((ndoSetVfLinkState cfg a v state down).2.vfinfo vf).clearToSend = false := by
  unfold ndoSetVfLinkState
  split_ifs
  · exact hcts
  · exact hcts
  · exact setVfLinkState_gate .disable down (.inr hcts)
  · exact setVfLinkState_gate .auto down (.inr hcts)
  · exact hcts

theorem taskStep_keeps_gate (e : TaskEvent cfg.numVfs) (he : ¬ AsksReset vf e)
    (hcts : (a.vfinfo vf).clearToSend = false) :
    ((taskStep cfg a e).vfinfo vf).clearToSend = false := by
  cases e with
  | adapter e => exact step_keeps_gate e he hcts
  | ack w =>
    rw [taskStep, rcvAckFromVf]
    split_ifs <;> exact hcts
  | malicious w => exact update_gate rfl (.inr hcts)
  | linkState w state down => exact setVfLinkState_gate state down (.inr hcts)
  | ndoLinkState w state down => exact ndoSetVfLinkState_keeps_gate w state down hcts

theorem run_keeps_gate {es : List (TaskEvent cfg.numVfs)} (hes : ∀ e ∈ es, ¬ AsksReset vf e)
    (hcts : (a.vfinfo vf).clearToSend = false) :
    ((run (taskStep cfg) a es).vfinfo vf).clearToSend = false :=
  have hstep : ∀ (s : Adapter) (e : TaskEvent cfg.numVfs), (s.vfinfo vf).clearToSend = false →
      ¬ AsksReset vf e → ((taskStep cfg s e).vfinfo vf).clearToSend = false :=
    fun _ e hs he => taskStep_keeps_gate e he hs
  run_inv hstep hcts (along_of_forall a es hes)

def apiRequest (w : U32) : MsgBuf := fun i => if i = 0 then 0x08 else w

theorem rcvMsgFromVf_apiRequest (hcts : (a.vfinfo vf).clearToSend = true) {w : U32} {api : MboxApi}
    (hw : MboxApi.negotiable w = some api) :
    ((rcvMsgFromVf cfg a vf (0, apiRequest w)).2.vfinfo vf).vfApi = api := by
  have hmsg : VfMsg.ofWord (apiRequest w 0) = some .apiNegotiate :=
    (by decide : VfMsg.ofWord 0x08 = some .apiNegotiate)
  have htype : apiRequest w 0 &&& (msgtypeSuccess ||| msgtypeFailure) = 0 :=
    (by decide : (0x08 : U32) &&& (msgtypeSuccess ||| msgtypeFailure) = 0)
  obtain ⟨m, hs⟩ : ∃ m : Mbx, (rcvMsgFromVf cfg a vf (0, apiRequest w)).2 =
      { (handleMsg cfg a (apiRequest w) vf).2.2 with mbx := m } :=
    rcvMsgFromVf_accepted htype hcts hmsg (by decide)
  have hneg : (negotiateVfApi a (apiRequest w) vf).2 =
      a.modifyVf vf fun v => { v with vfApi := api } := by
    have hver : MboxApi.negotiable (apiRequest w 1) = some api := hw
    rw [negotiateVfApi, hver]
  rw [hs, handleMsg, hmsg]
  rw [hneg, Adapter.modifyVf_self]

theorem rcvMsgFromVf_served (hcts : (a.vfinfo vf).clearToSend = true) :
    ∃ read : ℤ × MsgBuf, ¬ IsResetRequest read ∧
      ((rcvMsgFromVf cfg a vf read).2.vfinfo vf).vfApi ≠ (a.vfinfo vf).vfApi := by
  have hreq : ∀ w : U32, ¬ IsResetRequest (0, apiRequest w) := fun w hc =>
    absurd hc.2 (by decide : (0x08 : U32) ≠ vfReset)
  by_cases h10 : (a.vfinfo vf).vfApi = .api10
  · refine ⟨(0, apiRequest 2), hreq 2, ?_⟩
    have hver : MboxApi.negotiable 2 = some .api11 := rfl
    rw [rcvMsgFromVf_apiRequest hcts hver, h10]
    decide
  · refine ⟨(0, apiRequest 0), hreq 0, ?_⟩
    rw [rcvMsgFromVf_apiRequest hcts rfl]
    exact Ne.symm h10

theorem gateClosed_iff : GateClosed cfg vf a ↔ (a.vfinfo vf).clearToSend = false := by
  constructor
  · intro hgate
    by_contra hcts
    obtain ⟨read, hread, hne⟩ :=
      rcvMsgFromVf_served (Bool.eq_true_of_not_eq_false hcts)
    obtain ⟨m, hs⟩ := hgate [] read (by simp) hread
    rw [run, foldl_nil] at hs
    exact hne (by rw [hs])
  · intro hcts es read hes hread
    exact rcvMsgFromVf_gated (run_keeps_gate hes hcts) hread

theorem ClosesGate.clearToSend {c : TaskEvent cfg.numVfs} (hc : ClosesGate vf a c)
    (hhw : ¬ HwReset vf c) : ((taskStep cfg a c).vfinfo vf).clearToSend = false := by
  cases c with
  | adapter e =>
    cases e with
    | vfReset w => exact absurd hc hhw
    | setVfTrust w setting =>
      obtain ⟨rfl, hne⟩ := hc
      rw [taskStep, step, ndoSetVfTrust, if_neg (by omega), Int.toNat_natCast, if_neg hne]
      exact update_gate rfl (.inl rfl)
    | _ => exact absurd hc id
  | malicious w => exact update_gate rfl (.inl (Eq.symm hc))
  | linkState w state down => exact setVfLinkState_gate state down (.inl (Eq.symm hc))
  | ndoLinkState w state down =>
    obtain ⟨rfl, hstate⟩ := hc
    rw [taskStep, ndoSetVfLinkState, if_neg (by omega), if_neg (by omega), Int.toNat_natCast]
    split_ifs with h2 h0
    · exact setVfLinkState_gate .disable down (.inl rfl)
    · exact setVfLinkState_gate .auto down (.inl rfl)
    · exact absurd hstate (by omega)
  | ack _ => exact absurd hc id

end

/-- **Reset gating.** After an event that should close the gate, the VF's messages change nothing
but the mailbox until it asks for a reset, exactly when the event was no reset that the hardware
saw, or found the VF not clear to send. -/
theorem gate_closed_iff (cfg : AdapterCfg) (a : Adapter) (vf : Fin cfg.numVfs)
    (c : TaskEvent cfg.numVfs) (hc : ClosesGate vf a c) :
    GateClosed cfg vf (taskStep cfg a c) ↔
      ¬ HwReset vf c ∨ (a.vfinfo vf).clearToSend = false := by
  rw [gateClosed_iff]
  by_cases hhw : HwReset vf c
  · cases c with
    | adapter e =>
      cases e with
      | vfReset w =>
        obtain rfl : w = vf := Fin.ext hhw
        rw [or_iff_right (not_not.mpr hhw), taskStep, step, vfResetEvent_vfinfo,
          Function.update_self]
      | _ => exact absurd hhw id
    | _ => exact absurd hhw id
  · exact iff_of_true (hc.clearToSend hhw) (.inl hhw)

def servedAdapter : Adapter :=
  taskStep oneVfAdapterCfg (enabledAdapter oneVfAdapterCfg 0x0250)
    (.adapter (.msg oneVf (0, fun _ => vfReset)))

theorem gate_closed_trust :
    GateClosed oneVfAdapterCfg oneVf (taskStep oneVfAdapterCfg servedAdapter
      (.adapter (.setVfTrust 0 true))) :=
  (gate_closed_iff oneVfAdapterCfg servedAdapter oneVf (.adapter (.setVfTrust 0 true))
    ⟨rfl, by decide +kernel⟩).mpr (.inl id)

/-- After a hardware reset the VF negotiates an API version. -/
theorem gate_open_hw_reset :
    let a := taskStep oneVfAdapterCfg servedAdapter (.adapter (.vfReset oneVf))
    ClosesGate (n := 1) 0 servedAdapter (.adapter (.vfReset oneVf)) ∧
      ¬ IsResetRequest (0, apiRequest 2) ∧
      (a.vfinfo 0).vfApi = .api10 ∧
      ((rcvMsgFromVf oneVfAdapterCfg a 0 (0, apiRequest 2)).2.vfinfo 0).vfApi = .api11 ∧
      ¬ GateClosed oneVfAdapterCfg oneVf a := by
  refine ⟨rfl, fun hc => absurd hc.2 (by decide), by decide +kernel, by decide +kernel,
    fun h => absurd (gateClosed_iff.mp h) (by decide +kernel)⟩

end Ixgbe
