import Ixgbe.Sriov.Effects

/-! # One reply per request

`ixgbe_rcv_msg_from_vf` has to write the mailbox once. The handlers never write it and never touch
word 0 of the buffer. -/

namespace Ixgbe

open WordArray Function BitVec List

def Verdict (w : U32) : Prop :=
  w &&& msgtypeSuccess ≠ 0 ∧ w &&& msgtypeFailure = 0 ∨
    w &&& msgtypeSuccess = 0 ∧ w &&& msgtypeFailure ≠ 0

instance (w : U32) : Decidable (Verdict w) := inferInstanceAs (Decidable (_ ∨ _))

/-- One write to the VF's mailbox, and no other, whose word 0 repeats the request with a verdict. -/
def AnsweredOnce (cfg : AdapterCfg) (a : Adapter) (vf : ℕ) (msg : MsgBuf) : Prop :=
  ∃ (w : U32) (rest : List U32),
    (rcvMsgFromVf cfg a vf (0, msg)).2.mbx.sent = (vf, w :: rest) :: a.mbx.sent ∧
      w &&& 0xFFFF = msg 0 &&& 0xFFFF ∧ Verdict w

/-- A VF that is clear to send asks for frames beyond the jumbo size. -/
def OversizedLpe (a : Adapter) (vf : ℕ) (msg : MsgBuf) : Prop :=
  (a.vfinfo vf).clearToSend = true ∧ VfMsg.ofWord (msg 0) = some .setLpe ∧
    msg 1 > maxJumboFrameSize

instance (a : Adapter) (vf : ℕ) (msg : MsgBuf) : Decidable (OversizedLpe a vf msg) :=
  inferInstanceAs (Decidable (_ ∧ _ ∧ _))

section

variable {cfg : AdapterCfg} {a : Adapter} {vf : ℕ}

@[simp] theorem writeMcAddrList_mbx : (writeMcAddrList cfg a).2.mbx = a.mbx := by
  unfold writeMcAddrList
  split <;> rfl

@[simp] theorem setRxMode_mbx : (setRxMode cfg a).mbx = a.mbx := by
  obtain ⟨x, r, h⟩ := setRxMode_eq cfg a
  rw [h]
  exact writeMcAddrList_mbx

@[simp] theorem setVfMacvlan_mbx (index : ℕ) (addr : MacAddr) :
    (setVfMacvlan cfg a vf index addr).2.mbx = a.mbx := by
  obtain ⟨mvs, mac, h⟩ := setVfMacvlan_frame cfg a vf index addr
  rw [h]

@[simp] theorem restoreVfMac_mbx : (restoreVfMac cfg a vf).mbx = a.mbx := by
  unfold restoreVfMac
  dsimp only
  split_ifs <;> rfl

theorem vfResetEvent_sent : (vfResetEvent cfg a vf).mbx.sent = a.mbx.sent := by
  have hbefore : (resetVfFilters cfg (setRxMode cfg (resetVfDefaults cfg a vf)) vf).mbx = a.mbx :=
    (setVfMacvlan_mbx 0 0).trans setRxMode_mbx
  have hsent := congrArg Mbx.sent hbefore
  unfold vfResetEvent
  split_ifs
  · exact hsent
  · exact hsent

theorem Handled.mbx {b : Adapter} {msg : MsgBuf} (h : Handled cfg a vf msg b)
    (hmsg : msg 0 ≠ vfReset) : b.mbx = a.mbx := by
  cases h with
  | same => rfl
  | reset hreset => exact absurd hreset hmsg
  | mac => rfl
  | multicast => exact writeMcAddrList_mbx
  | vlan => rfl
  | frameSize => rfl
  | macvlan => exact setVfMacvlan_mbx _ _
  | api => rfl
  | xcast => rfl

theorem handleMsg_mbx {msg : MsgBuf} (hcts : (a.vfinfo vf).clearToSend = true)
    (hmsg : msg 0 ≠ vfReset) : (handleMsg cfg a msg vf).2.2.mbx = a.mbx :=
  (handleMsg_handled msg hcts).mbx hmsg

section

variable (msg : MsgBuf)

theorem getVfQueues_word : (getVfQueues cfg a msg vf).2 0 = msg 0 := by
  unfold getVfQueues
  dsimp only
  split_ifs <;> simp [update]

theorem getVfReta_word : (getVfReta cfg a msg vf).2 0 = msg 0 := by
  unfold getVfReta
  dsimp only
  split_ifs <;> simp

theorem getVfRssKey_word : (getVfRssKey a msg vf).2 0 = msg 0 := by
  unfold getVfRssKey
  dsimp only
  split_ifs <;> simp

theorem getVfLinkState_word : (getVfLinkState a msg vf).2 0 = msg 0 := by
  unfold getVfLinkState
  dsimp only
  split_ifs <;> simp [update]

theorem getVfLinkStatus_word : (getVfLinkStatus cfg a msg vf).2 0 = msg 0 := by
  unfold getVfLinkStatus
  dsimp only
  split_ifs <;> simp [update]

theorem negotiateVfFeatures_word : (negotiateVfFeatures a msg vf).2 0 = msg 0 := by
  unfold negotiateVfFeatures
  split_ifs <;> simp [update]

theorem updateVfXcastMode_word : (updateVfXcastMode cfg a msg vf).2.1 0 = msg 0 := by
  unfold updateVfXcastMode
  dsimp only
  split_ifs
  · rfl
  cases clipXcast (a.vfinfo vf).trusted (msg 1) with
  | none => rfl
  | some mode =>
    dsimp only
    split_ifs <;> simp [update]

theorem handleMsg_word : (handleMsg cfg a msg vf).2.1 0 = msg 0 := by
  unfold handleMsg
  cases VfMsg.ofWord (msg 0) with
  | none => rfl
  | some k =>
    cases k with
    | setMacAddr => rfl
    | setMulticast => rfl
    | setVlan => rfl
    | setLpe => rfl
    | setMacvlan => rfl
    | apiNegotiate => rfl
    | getQueues => exact getVfQueues_word msg
    | getReta => exact getVfReta_word msg
    | getRssKey => exact getVfRssKey_word msg
    | updateXcastMode => exact updateVfXcastMode_word msg
    | getLinkState => exact getVfLinkState_word msg
    | getPfLinkState => exact getVfLinkStatus_word msg
    | featuresNegotiate => exact negotiateVfFeatures_word msg

end

theorem fresh_iff (w : U32) : w &&& (msgtypeSuccess ||| msgtypeFailure) = 0 ↔
    w &&& msgtypeSuccess = 0#32 ∧ w &&& msgtypeFailure = 0#32 := by
  rw [and_or_distrib_left]
  exact or_eq_zero_iff

theorem verdict_or {w x c : U32} (hw : w &&& (msgtypeSuccess ||| msgtypeFailure) = 0)
    (hx : x = msgtypeSuccess ∨ x = msgtypeFailure)
    (hc : c &&& (msgtypeSuccess ||| msgtypeFailure) = 0) : Verdict ((w ||| x) ||| c) := by
  obtain ⟨hws, hwf⟩ := (fresh_iff w).mp hw
  obtain ⟨hcs, hcf⟩ := (fresh_iff c).mp hc
  rw [Verdict, or_and_of_disjoint hcs, or_and_of_disjoint hcf, and_or_distrib_right,
    and_or_distrib_right, hws, hwf, zero_or, zero_or]
  rcases hx with rfl | rfl
  · exact .inl ⟨by decide, by decide⟩
  · exact .inr ⟨by decide, by decide⟩

theorem replyWord_verdict (ret : ℤ) {w : U32}
    (hw : w &&& (msgtypeSuccess ||| msgtypeFailure) = 0) : Verdict (replyWord ret w) := by
  refine verdict_or hw ?_ (by decide)
  split_ifs
  · exact .inr rfl
  · exact .inl rfl

theorem replyWord_low (ret : ℤ) (w : U32) : replyWord ret w &&& 0xFFFF = w &&& 0xFFFF := by
  rw [replyWord, or_and_of_disjoint (by decide)]
  refine or_and_of_disjoint ?_ w
  split_ifs <;> decide

theorem resetReply_cons (cfg : AdapterCfg) (v : VfDataStorage) : ∃ (w : U32) (rest : List U32),
    resetReply cfg v = w :: rest ∧ w &&& 0xFFFF = vfReset &&& 0xFFFF ∧ Verdict w := by
  unfold resetReply
  split_ifs
  · exact ⟨_, _, rfl, by decide, by decide⟩
  · exact ⟨_, _, rfl, by decide, by decide⟩

theorem map_update_zero (f : MsgBuf) (w : U32) :
    (range vfMailboxSize).map (update f 0 w) =
      w :: ((range 15).map Nat.succ).map (update f 0 w) := by
  rw [vfMailboxSize, range_succ_eq_map, map_cons, update_self]

theorem answeredOnce_of_not_oversized {msg : MsgBuf}
    (hfresh : msg 0 &&& (msgtypeSuccess ||| msgtypeFailure) = 0) (h : ¬ OversizedLpe a vf msg) :
    AnsweredOnce cfg a vf msg := by
  unfold AnsweredOnce rcvMsgFromVf
  dsimp only
  rw [if_neg (not_not.mpr rfl), if_neg (not_not.mpr hfresh)]
  by_cases hreset : msg 0 = vfReset
  · rw [if_pos hreset, hreset, vfResetMsg]
    obtain ⟨w, rest, heq, hlow, hverdict⟩ := resetReply_cons cfg
      ((enableVf cfg (restoreVfMac cfg (vfResetEvent cfg a vf) vf) vf).vfinfo vf)
    refine ⟨w, rest, ?_, hlow, hverdict⟩
    have hsent : (restoreVfMac cfg (vfResetEvent cfg a vf) vf).mbx.sent = a.mbx.sent := by
      rw [restoreVfMac_mbx, vfResetEvent_sent]
    exact congrArg₂ (fun r l => (vf, r) :: l) heq hsent
  rw [if_neg hreset]
  by_cases hcts : (a.vfinfo vf).clearToSend = false
  · -- refused before the switch
    rw [if_pos hcts]
    refine ⟨_, [], rfl, or_and_of_disjoint (by decide) _, ?_⟩
    have hv := verdict_or (c := 0) hfresh (.inr rfl) (by decide)
    rwa [show (msg 0 ||| msgtypeFailure) ||| 0 = msg 0 ||| msgtypeFailure from or_zero] at hv
  · rw [Bool.not_eq_false] at hcts
    rw [if_neg (by rw [hcts]; decide), if_neg fun hc => h ⟨hcts, hc⟩]
    have hbuf := map_update_zero (handleMsg cfg a msg vf).2.1
      (replyWord (handleMsg cfg a msg vf).1 (msg 0))
    rw [handleMsg_word]
    exact ⟨_, _, congrArg₂ (fun r l => (vf, r) :: l) hbuf
      (congrArg Mbx.sent (handleMsg_mbx hcts hreset)), replyWord_low _ _,
      replyWord_verdict _ hfresh⟩

theorem sent_of_oversized {msg : MsgBuf} (h : OversizedLpe a vf msg) :
    (rcvMsgFromVf cfg a vf (0, msg)).2.mbx.sent = a.mbx.sent := by
  have hreset : ¬ msg 0 = vfReset := fun hc => by
    have hmsg := h.2.1
    rw [hc] at hmsg
    exact absurd hmsg (by decide)
  unfold rcvMsgFromVf
  rw [if_neg (not_not.mpr rfl)]
  split_ifs with h1 h2
  · rfl
  · exact absurd (h.1.symm.trans h2) (by decide)
  · rfl
  · exact absurd h.2 ‹_›

/-- **A fresh request is answered exactly once, unless it is an oversized `IXGBE_VF_SET_LPE`** from
a VF that is clear to send. -/
theorem answeredOnce_iff (cfg : AdapterCfg) (a : Adapter) (vf : ℕ) (msg : MsgBuf)
    (hfresh : msg 0 &&& (msgtypeSuccess ||| msgtypeFailure) = 0) :
    AnsweredOnce cfg a vf msg ↔ ¬ OversizedLpe a vf msg := by
  refine ⟨?_, answeredOnce_of_not_oversized hfresh⟩
  rintro ⟨w, rest, hsent, -⟩ hlpe
  rw [sent_of_oversized hlpe] at hsent
  exact absurd (congrArg length hsent) (by simp)

end

def ctsAdapter : Adapter :=
  (enabledAdapter oneVfAdapterCfg 0x020000000000).modifyVf 0 fun v =>
    { v with clearToSend := true }

def lpeRequest (size : U32) : MsgBuf := fun i => if i = 0 then 0x05 else if i = 1 then size else 0

theorem answeredOnce_jumbo :
    lpeRequest 9728 0 &&& (msgtypeSuccess ||| msgtypeFailure) = 0 ∧
      AnsweredOnce oneVfAdapterCfg ctsAdapter 0 (lpeRequest 9728) :=
  ⟨by decide, (answeredOnce_iff oneVfAdapterCfg ctsAdapter 0 (lpeRequest 9728) (by decide)).mpr
    (by decide)⟩

/-- One byte more, and the VF waits in vain. -/
theorem not_answered_oversized :
    lpeRequest 9729 0 &&& (msgtypeSuccess ||| msgtypeFailure) = 0 ∧
      (rcvMsgFromVf oneVfAdapterCfg ctsAdapter 0 (0, lpeRequest 9729)).2.mbx.sent =
        ctsAdapter.mbx.sent ∧
      ¬ AnsweredOnce oneVfAdapterCfg ctsAdapter 0 (lpeRequest 9729) := by
  have hsent : (rcvMsgFromVf oneVfAdapterCfg ctsAdapter 0 (0, lpeRequest 9729)).2.mbx.sent =
      ctsAdapter.mbx.sent := sent_of_oversized (by decide)
  refine ⟨by decide, hsent, ?_⟩
  rintro ⟨w, rest, hans, -⟩
  rw [hsent] at hans
  exact absurd (congrArg length hans) (by simp)

end Ixgbe
