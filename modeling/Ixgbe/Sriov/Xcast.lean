import Ixgbe.Sriov.Reply
import Ixgbe.Sriov.Vmolr

/-! # The accepted xcast mode and the register

A request for the recorded mode is answered without a look at `VMOLR`, which a reset and the
multicast table change. -/

namespace Ixgbe

open EventRun WordArray

def xcastBits : U32 := vmolrBam ||| vmolrRompe ||| vmolrMpe ||| vmolrUpe ||| vmolrVpe

def InEffect (a : Adapter) (vf : ℕ) (m : XcastMode) : Prop := a.vmolr vf &&& xcastBits = m.enable

instance (a : Adapter) (vf : ℕ) (m : XcastMode) : Decidable (InEffect a vf m) :=
  inferInstanceAs (Decidable (a.vmolr vf &&& xcastBits = m.enable))

/-- Answered with `SUCCESS` and mode `m`. -/
def AnsweredXcast (cfg : AdapterCfg) (a : Adapter) (vf : ℕ) (msg : MsgBuf) (m : XcastMode) : Prop :=
  VfMsg.ofWord (msg 0) = some .updateXcastMode ∧
    ∃ reply : List U32, (rcvMsgFromVf cfg a vf (0, msg)).2.mbx.sent = (vf, reply) :: a.mbx.sent ∧
      reply.getD 0 0 &&& msgtypeSuccess ≠ 0 ∧ reply.getD 1 0 = BitVec.ofNat 32 m.value

/-- No message, reset or port VLAN of the VF, and no reset of the adapter. -/
def LeavesAlone {n : ℕ} (vf : ℕ) : Event n → Prop
  | .msg w _ => (w : ℕ) ≠ vf
  | .vfReset w => (w : ℕ) ≠ vf
  | .setVfVlan w _ _ _ => w ≠ vf
  | .reset _ => False
  | _ => True

/-- A reset of a VF, its multicast list, or the receive mode of the PF. -/
def RewritesMta {n : ℕ} (a : Adapter) : Event n → Prop
  | .msg w read => a.netdev.running = true ∧ read.1 = 0 ∧
      (read.2 0 = vfReset ∨
        read.2 0 &&& (msgtypeSuccess ||| msgtypeFailure) = 0 ∧ (a.vfinfo w).clearToSend = true ∧
          VfMsg.ofWord (read.2 0) = some .setMulticast)
  | .vfReset _ => a.netdev.running = true
  | .rxMode dev => dev.running = true
  | _ => False

theorem XcastMode.value_injective {m m' : XcastMode}
    (h : BitVec.ofNat 32 m.value = BitVec.ofNat 32 m'.value) : m = m' := by
  revert h
  cases m <;> cases m' <;> decide

theorem updateVfXcastMode_ok {cfg : AdapterCfg} {a : Adapter} {msg : MsgBuf} {vf : ℕ}
    (h : (updateVfXcastMode cfg a msg vf).1 = 0) :
    ∃ mode : XcastMode, (updateVfXcastMode cfg a msg vf).2.1 =
        Function.update msg 1 (BitVec.ofNat 32 mode.value) ∧
      (updateVfXcastMode cfg a msg vf).2.2.vmolr vf =
        (if (a.vfinfo vf).xcastMode = mode then a.vmolr vf
          else (a.vmolr vf &&& ~~~mode.disable) ||| mode.enable) := by
  revert h
  unfold updateVfXcastMode
  dsimp only
  split_ifs with h1
  · exact fun h => absurd h (by decide : eOpNotSupp ≠ 0)
  cases clipXcast (a.vfinfo vf).trusted (msg 1) with
  | none => exact fun h => absurd h (by decide : eOpNotSupp ≠ 0)
  | some mode =>
    dsimp only
    split_ifs with h2 h3 h4
    · exact fun _ => ⟨mode, rfl, (if_pos h2).symm⟩
    · exact fun h => absurd h (by decide : eOpNotSupp ≠ 0)
    · exact fun h => absurd h (by decide : ePerm ≠ 0)
    · exact fun _ => ⟨mode, rfl, by rw [if_neg h2, Adapter.modifyVf_vmolr, Adapter.writeVmolr_self]⟩

theorem reply_getD (f : ℕ → U32) {i : ℕ} (hi : i < vfMailboxSize) :
    ((List.range vfMailboxSize).map f).getD i 0 = f i := by
  simp [List.getD, hi]

theorem replyWord_success {ret : ℤ} {x : U32} (hx : x &&& (msgtypeSuccess ||| msgtypeFailure) = 0)
    (h : replyWord ret x &&& msgtypeSuccess ≠ 0) : ret = 0 := by
  by_contra hret
  rw [replyWord, if_pos hret, or_and_of_disjoint (by decide), or_and_of_disjoint (by decide)] at h
  exact h (((fresh_iff x).mp hx).1)

theorem AnsweredXcast.vmolr {cfg : AdapterCfg} {a : Adapter} {vf : ℕ} {msg : MsgBuf} {m : XcastMode}
    (h : AnsweredXcast cfg a vf msg m) : (rcvMsgFromVf cfg a vf (0, msg)).2.vmolr vf =
      if (a.vfinfo vf).xcastMode = m then a.vmolr vf
      else (a.vmolr vf &&& ~~~m.disable) ||| m.enable := by
  obtain ⟨hk, reply, hsent, hok, hmode⟩ := h
  unfold rcvMsgFromVf at hsent ⊢
  rw [if_neg (not_not.mpr rfl)] at hsent ⊢
  by_cases h1 : msg 0 &&& (msgtypeSuccess ||| msgtypeFailure) ≠ 0
  · -- nothing is sent
    rw [if_pos h1] at hsent
    exact absurd hsent.symm (List.cons_ne_self _ _)
  rw [if_neg h1] at hsent ⊢
  rw [not_not] at h1
  by_cases h2 : msg 0 = vfReset
  · rw [h2] at hk
    exact absurd hk (by decide)
  rw [if_neg h2] at hsent ⊢
  by_cases h3 : (a.vfinfo vf).clearToSend = false
  · -- the reply has the `FAILURE` bit only
    rw [if_pos h3] at hsent
    have hreply : reply = [msg 0 ||| msgtypeFailure] :=
      (Prod.mk.inj (List.cons.inj hsent).1).2.symm
    rw [hreply] at hok
    change (msg 0 ||| msgtypeFailure) &&& msgtypeSuccess ≠ 0 at hok
    rw [or_and_of_disjoint (by decide)] at hok
    exact absurd (((fresh_iff _).mp h1).1) hok
  have hlpe : ¬ (VfMsg.ofWord (msg 0) = some .setLpe ∧ msg 1 > maxJumboFrameSize) := fun hc => by
    rw [hk] at hc
    exact absurd hc.1 (by decide)
  have hhandle : handleMsg cfg a msg vf = updateVfXcastMode cfg a msg vf := by
    rw [handleMsg, hk]
  rw [if_neg h3, if_neg hlpe, hhandle] at hsent ⊢
  have hreply := (Prod.mk.inj (List.cons.inj hsent).1).2
  rw [← hreply, reply_getD _ (by decide), Function.update_self, updateVfXcastMode_word] at hok
  obtain ⟨mode, hbuf, hvmolr⟩ := updateVfXcastMode_ok (replyWord_success h1 hok)
  rw [← hreply, reply_getD _ (by decide), Function.update_of_ne (by decide), hbuf,
    Function.update_self] at hmode
  rw [XcastMode.value_injective hmode] at hvmolr
  exact hvmolr

section

variable {cfg : AdapterCfg} {a : Adapter} {vf : ℕ} {m : XcastMode}

theorem AnsweredXcast.inEffect_iff {msg : MsgBuf} (h : AnsweredXcast cfg a vf msg m) :
    InEffect (rcvMsgFromVf cfg a vf (0, msg)).2 vf m ↔
      (a.vfinfo vf).xcastMode ≠ m ∨ InEffect a vf m := by
  rw [InEffect, h.vmolr]
  by_cases hrec : (a.vfinfo vf).xcastMode = m
  · rw [if_pos hrec]
    exact ⟨.inr, fun h => h.resolve_left (not_not.mpr hrec)⟩
  · rw [if_neg hrec, write_and_of_covered (by cases m <;> decide)]
    exact iff_of_true (by cases m <;> decide) (.inl hrec)

theorem InEffect.restored_iff (h : InEffect a vf m) (hashes : ℕ) :
    restoredVmolr true hashes (a.vmolr vf) &&& xcastBits = m.enable ↔ (hashes ≠ 0 ↔ m ≠ .none) := by
  have hor : (a.vmolr vf ||| vmolrRompe) &&& xcastBits = m.enable ||| vmolrRompe := by
    have hr : vmolrRompe &&& xcastBits = vmolrRompe := by decide
    rw [BitVec.and_or_distrib_right, h, hr]
  have hand : (a.vmolr vf &&& ~~~vmolrRompe) &&& xcastBits = m.enable &&& ~~~vmolrRompe := by
    rw [BitVec.and_assoc, BitVec.and_comm (~~~vmolrRompe), ← BitVec.and_assoc, h]
  rw [restoredVmolr, if_pos rfl]
  by_cases hh : hashes ≠ 0
  · rw [if_pos hh, hor]
    simp only [hh, ne_eq, true_iff, not_false_eq_true]
    cases m <;> decide
  · rw [if_neg hh, hand]
    simp only [hh, false_iff, not_not]
    cases m <;> decide

theorem Handled.vmolr_other {b : Adapter} {w : ℕ} {msg : MsgBuf} (h : Handled cfg a w msg b)
    (hvf : vf < cfg.numVfs) (hne : vf ≠ w) : b.vmolr vf = a.vmolr vf ∨
      (msg 0 = vfReset ∨ (a.vfinfo w).clearToSend = true ∧
          VfMsg.ofWord (msg 0) = some .setMulticast) ∧
        b.vmolr vf = restoredVmolr a.netdev.running (a.vfinfo vf).numVfMcHashes (a.vmolr vf) := by
  cases h with
  | same => exact .inl rfl
  | reset hmsg =>
    exact .inr ⟨.inl hmsg, by rw [vfResetMsg_vmolr, vfResetEvent_vmolr_other hvf hne]⟩
  | mac _ _ _ _ => exact .inl rfl
  | multicast hcts hmsg => exact .inr ⟨.inr ⟨hcts, hmsg⟩, setVfMulticasts_vmolr_other hvf hne msg⟩
  | vlan _ _ _ _ => exact .inl rfl
  | frameSize _ => exact .inl rfl
  | macvlan _ _ => exact .inl (by rw [setVfMacvlan_vmolr])
  | api _ => exact .inl rfl
  | xcast _ _ => exact .inl (by rw [Adapter.modifyVf_vmolr, Adapter.writeVmolr_of_ne _ hne])

theorem step_vmolr_same (hvf : vf < cfg.numVfs) {e : Event cfg.numVfs} (he : LeavesAlone vf e)
    (hmta : ¬ RewritesMta a e) : (step cfg a e).vmolr vf = a.vmolr vf := by
  have hoff : ∀ {r : Bool}, ¬ r = true → ∀ h x, restoredVmolr r h x = x := fun hr h x => if_neg hr
  cases e with
  | msg w read =>
    rw [step]
    by_cases hign : read.1 ≠ 0 ∨ read.2 0 &&& (msgtypeSuccess ||| msgtypeFailure) ≠ 0
    · rw [rcvMsgFromVf_ignored cfg a w hign]
    obtain ⟨b, mb, hb, h⟩ := rcvMsgFromVf_handled cfg a w read
    rw [h]
    rcases hb.vmolr_other hvf (Ne.symm he) with hsame | ⟨hkind, hrest⟩
    · exact hsame
    · push Not at hign
      have hrun : ¬ a.netdev.running = true := fun hrun =>
        hmta ⟨hrun, hign.1, hkind.imp_right fun hk => ⟨hign.2, hk⟩⟩
      exact hrest.trans (hoff hrun _ _)
  | vfReset w => rw [step, vfResetEvent_vmolr_other hvf (Ne.symm he), hoff hmta]
  | addVid _ => rfl
  | killVid _ => rfl
  | rxMode dev =>
    rw [step, setRxMode_restored hvf]
    exact hoff hmta _ _
  | ucSync _ => rfl
  | ucUnsync _ => rfl
  | setVfTrust w b => rw [step, (ndoSetVfTrust_frame w b).2]
  | setVfMac w mac => rw [step, (ndoSetVfMac_frame w mac).2.1]
  | setVfVlan w vlan qos proto => exact ndoSetVfVlan_vmolr_other he vlan qos proto
  | reset _ => exact absurd he id

theorem step_vmolr_restored (hvf : vf < cfg.numVfs) {e : Event cfg.numVfs} (he : LeavesAlone vf e)
    (hmta : RewritesMta a e) : (step cfg a e).vmolr vf =
      restoredVmolr true (a.vfinfo vf).numVfMcHashes (a.vmolr vf) := by
  cases e with
  | msg w read =>
    obtain ⟨ret, msg⟩ := read
    obtain ⟨hrun, rfl, hkind⟩ := hmta
    rw [step, ← hrun]
    rcases hkind with hreset | ⟨htype, hcts, hmc⟩
    · rw [rcvMsgFromVf_reset cfg a w hreset, vfResetMsg_vmolr,
        vfResetEvent_vmolr_other hvf (Ne.symm he)]
    · obtain ⟨mb, h⟩ := rcvMsgFromVf_accepted htype hcts hmc (by decide)
      rw [h, handleMsg, hmc]
      exact setVfMulticasts_vmolr_other hvf (Ne.symm he) msg
  | vfReset w =>
    rw [step, vfResetEvent_vmolr_other hvf (Ne.symm he), hmta]
  | rxMode dev =>
    rw [step, setRxMode_restored hvf]
    exact congrArg (restoredVmolr · _ _) hmta
  | _ => exact absurd hmta id

end

/-- **The accepted mode is in effect** all along a run exactly when the handler took no short cut
past a register that differs, and every write of the multicast table finds the VF with hashes just
if `m` is not `none`. -/
theorem accepted_xcast_iff (cfg : AdapterCfg) (a : Adapter) (vf : Fin cfg.numVfs) (msg : MsgBuf)
    (m : XcastMode) (hacc : AnsweredXcast cfg a vf msg m) (es : List (Event cfg.numVfs))
    (hes : ∀ e ∈ es, LeavesAlone vf e) :
    let a₁ := step cfg a (.msg vf (0, msg))
    (InEffect a₁ vf m ∧ After (step cfg) (InEffect · vf m) a₁ es) ↔
      ((a.vfinfo vf).xcastMode ≠ m ∨ InEffect a vf m) ∧
        Along (step cfg)
          (fun s e => RewritesMta s e → ((s.vfinfo vf).numVfMcHashes ≠ 0 ↔ m ≠ .none)) a₁ es := by
  intro a₁
  rw [← hacc.inEffect_iff]
  refine and_congr_right fun hin => ?_
  refine after_iff_along (fun _ e => LeavesAlone vf e) (fun s e hs he hok => ?_) (fun _ hs => hs)
    (fun s e hs he hbad => ?_) hin (along_of_forall _ es hes)
  · by_cases hmta : RewritesMta s e
    · rw [InEffect, step_vmolr_restored vf.isLt he hmta]
      exact (hs.restored_iff _).mpr (hok hmta)
    · rw [InEffect, step_vmolr_same vf.isLt he hmta]
      exact hs
  · rw [Classical.not_imp] at hbad
    rw [InEffect, step_vmolr_restored vf.isLt he hbad.1]
    exact fun h => hbad.2 ((hs.restored_iff _).mp h)

def resetApi13 : Adapter :=
  run (step oneVfAdapterCfg) (enabledAdapter oneVfAdapterCfg 0x0250)
    [.msg oneVf (0, fun _ => vfReset), .msg oneVf (0, fun i => if i = 0 then 8 else 4)]

def xcastMsg (n : U32) : MsgBuf := fun i => if i = 0 then 12 else n

theorem answeredXcast_none : AnsweredXcast oneVfAdapterCfg resetApi13 0 (xcastMsg 0) .none :=
  ⟨by decide, 0xA000000C :: List.replicate 15 0, by decide +kernel, by decide, by decide⟩

theorem answeredXcast_multi : AnsweredXcast oneVfAdapterCfg resetApi13 0 (xcastMsg 1) .multi :=
  ⟨by decide, 0xA000000C :: List.replicate 15 1, by decide +kernel, by decide, by decide⟩

theorem accepted_xcast_multi :
    let cfg := oneVfAdapterCfg
    let a₁ := step cfg resetApi13 (.msg oneVf (0, xcastMsg 1))
    InEffect a₁ 0 .multi ∧ After (step cfg) (InEffect · 0 .multi) a₁ [.addVid 7] := by
  intro cfg a₁
  refine (accepted_xcast_iff cfg resetApi13 oneVf (xcastMsg 1) .multi answeredXcast_multi
    [.addVid 7]
    (by simp [LeavesAlone])).mpr ⟨.inl (by decide +kernel), ?_⟩
  exact ⟨fun h => absurd h id, trivial⟩

/-- Mode `none` is accepted while `BAM` is set; and the PF's next update takes the `ROMPE` of
`multi` away. -/
theorem accepted_xcast_not_in_effect :
    let cfg := oneVfAdapterCfg
    let multi := step cfg resetApi13 (.msg oneVf (0, xcastMsg 1))
    (AnsweredXcast cfg resetApi13 0 (xcastMsg 0) .none ∧
        ¬ InEffect (step cfg resetApi13 (.msg oneVf (0, xcastMsg 0))) 0 .none) ∧
      (AnsweredXcast cfg resetApi13 0 (xcastMsg 1) .multi ∧
        ¬ InEffect (step cfg multi (.rxMode multi.netdev)) 0 .multi) :=
  ⟨⟨answeredXcast_none, by decide +kernel⟩, ⟨answeredXcast_multi, by decide +kernel⟩⟩

end Ixgbe
