import Ixgbe.Mbx.Pf

/-! # The mailbox of a VF, used by the VF

A read of `VFMAILBOX` clears `PFSTS`, `PFACK` and `RSTD`, so `ixgbe_mbx.c` keeps them in
`vf_mailbox`. The PF acts before each read; messages are left out. -/

namespace Ixgbe

inductive MbxKind
  | msg
  | ack
  | rst
  deriving DecidableEq, Repr

def MbxKind.bit : MbxKind → ℕ
  | .msg => 4
  | .ack => 5
  | .rst => 7

/-- A reset is also seen by `RSTI`, which a read does not clear. -/
def MbxKind.mask : MbxKind → U32
  | .msg => 0x10
  | .ack => 0x20
  | .rst => 0x40 ||| 0x80

def vfMailboxR2cBits : U32 := 0xB0

inductive MbxEvent
  | set (k : MbxKind)
  /-- A check or a clear of the kind has taken the event. -/
  | consume (k : MbxKind)
  deriving DecidableEq, Repr

/-- The pending bits, `hw->mbx.vf_mailbox`, the number of reads, and what has happened, newest
first. -/
structure VfMbx where
  reg : U32
  vfMailbox : U32
  reads : ℕ
  log : List MbxEvent

/-- What the PF signals before each read, and the bits a read leaves alone. -/
structure PfActs where
  signals : ℕ → List MbxKind
  other : ℕ → U32

section

variable (pf : PfActs)

abbrev VfM := StateM VfMbx

def readMailboxVf : VfM U32 := fun s =>
  let sets := pf.signals s.reads
  let reg := sets.foldr (fun k r => shl1 k.bit ||| r) s.reg
  let v := reg ||| (pf.other s.reads &&& ~~~vfMailboxR2cBits) ||| s.vfMailbox
  (v, { reg := 0
        vfMailbox := s.vfMailbox ||| (v &&& vfMailboxR2cBits)
        reads := s.reads + 1
        log := sets.map .set ++ s.log })

def consumeVf (k : MbxKind) : VfM Unit := modify fun s =>
  { s with vfMailbox := s.vfMailbox &&& ~~~k.mask, log := .consume k :: s.log }

/-- `ixgbe_clear_msg_vf`, `ixgbe_clear_ack_vf` and `ixgbe_clear_rst_vf`. -/
def clearVf (k : MbxKind) : VfM Unit := do
  let v ← readMailboxVf pf
  if v &&& k.mask ≠ 0 then consumeVf k else pure ()

def checkForBitVf (k : MbxKind) : VfM Bool := do
  let v ← readMailboxVf pf
  pure (v &&& k.mask ≠ 0)

def checkForMsgVf : VfM ℤ := do
  if ← checkForBitVf pf .msg then pure success else pure errMbx

/-- `ixgbe_check_for_ack_vf` and `ixgbe_check_for_rst_vf`. -/
def checkAndClearVf (k : MbxKind) : VfM ℤ := do
  if ← checkForBitVf pf k then
    clearVf pf k
    pure success
  else pure errMbx

/-- The write of the register does not reach the bits that the PF sets. -/
def obtainVfLoop : ℕ → VfM ℤ
  | 0 => pure errTimeout
  | countdown + 1 => do
    let _ ← readMailboxVf pf
    let v ← readMailboxVf pf
    if v &&& 0x4 ≠ 0 then pure success else obtainVfLoop countdown

def obtainMbxLockVf (timeout : ℕ) : VfM ℤ :=
  if timeout = 0 then pure errConfig else obtainVfLoop pf timeout

def releaseMbxLockVf : VfM Unit := do
  let _ ← readMailboxVf pf

def pollForAckVf : ℕ → VfM Unit
  | 0 => pure ()
  | countdown + 1 => do
    let status ← checkAndClearVf pf .ack
    if status ≠ success then pollForAckVf countdown else pure ()

/-- With the lock: the buffer is overwritten, and the PF told. -/
def sendMbxVf (timeout : ℕ) : VfM Unit := do
  clearVf pf .msg
  clearVf pf .ack
  let _ ← readMailboxVf pf
  pollForAckVf pf timeout

def writeMbxVf (timeout : ℕ) : VfM ℤ := do
  let status ← obtainMbxLockVf pf timeout
  (if status = success then sendMbxVf pf timeout else pure ())
  releaseMbxLockVf pf
  pure status

def errMbxNomsg : ℤ := -42

def readMbxVf : VfM ℤ := do
  let status ← checkForMsgVf pf
  if status ≠ success then pure errMbxNomsg
  else
    clearVf pf .msg
    let _ ← readMailboxVf pf
    pure success

inductive VfCall
  | checkForMsg
  | checkForAck
  | checkForRst
  | writeMbx (timeout : ℕ)
  | readMbx
  | obtainLock (timeout : ℕ)
  | releaseLock

def vfCall : VfCall → VfM ℤ
  | .checkForMsg => checkForMsgVf pf
  | .checkForAck => checkAndClearVf pf .ack
  | .checkForRst => checkAndClearVf pf .rst
  | .writeMbx timeout => writeMbxVf pf timeout
  | .readMbx => readMbxVf pf
  | .obtainLock timeout => obtainMbxLockVf pf timeout
  | .releaseLock => do
    releaseMbxLockVf pf
    pure success

/-- The events that a call checks for; `ixgbe_read_mbx_vf` begins with such a check. -/
def VfCall.kind : VfCall → Option MbxKind
  | .checkForMsg | .readMbx => some .msg
  | .checkForAck => some .ack
  | .checkForRst => some .rst
  | .writeMbx _ | .obtainLock _ | .releaseLock => none

/-- A call, the state it is made in, and the value it returns. -/
structure VfReturn where
  before : VfMbx
  call : VfCall
  value : ℤ

def vfCalls : List VfCall → VfMbx → List VfReturn
  | [], _ => []
  | c :: cs, s => ⟨s, c, (vfCall pf c s).1⟩ :: vfCalls cs (vfCall pf c s).2

end

/-- An event of the kind was set and not consumed since. -/
def Owed (k : MbxKind) : List MbxEvent → Prop
  | [] => False
  | .set j :: l => j = k ∨ Owed k l
  | .consume j :: l => j ≠ k ∧ Owed k l

/-- What is owed is in the register or in `hw->mbx.vf_mailbox`. -/
def VfMbx.Inv (s : VfMbx) : Prop :=
  ∀ k, Owed k s.log → (s.reg ||| s.vfMailbox).getLsbD k.bit = true

theorem owed_sets {k : MbxKind} {sets : List MbxKind} {l : List MbxEvent} :
    Owed k (sets.map .set ++ l) ↔ k ∈ sets ∨ Owed k l := by
  induction sets with
  | nil => simp
  | cons j sets ih => simp [Owed, ih, or_assoc, eq_comm]

theorem getLsbD_signals {k : MbxKind} {sets : List MbxKind} {r : U32}
    (h : k ∈ sets ∨ r.getLsbD k.bit = true) :
    (sets.foldr (fun k r => shl1 k.bit ||| r) r).getLsbD k.bit = true := by
  induction sets with
  | nil => simpa using h
  | cons j sets ih =>
    rw [List.foldr_cons, BitVec.getLsbD_or, Bool.or_eq_true]
    rcases h with h | h
    · rcases List.mem_cons.mp h with rfl | h
      · exact .inl (by cases k <;> rfl)
      · exact .inr (ih (.inl h))
    · exact .inr (ih (.inr h))

theorem and_mask_ne_zero {v : U32} {k : MbxKind} (h : v.getLsbD k.bit = true) :
    v &&& k.mask ≠ 0 := by
  intro h0
  have hbit : (v &&& k.mask).getLsbD k.bit = true := by
    rw [BitVec.getLsbD_and, h]
    cases k <;> rfl
  rw [h0] at hbit
  simp at hbit

section

variable {pf : PfActs} {α β : Type}

section

variable {s : VfMbx} {k : MbxKind}

/-- What is owed is in the value and in `hw->mbx.vf_mailbox`. -/
theorem readMailboxVf_owed (h : s.Inv) (hk : Owed k (readMailboxVf pf s).2.log) :
    (readMailboxVf pf s).1.getLsbD k.bit = true ∧
      (readMailboxVf pf s).2.vfMailbox.getLsbD k.bit = true := by
  have hpending : (((pf.signals s.reads).foldr (fun k r => shl1 k.bit ||| r) s.reg) |||
      s.vfMailbox).getLsbD k.bit = true := by
    rw [BitVec.getLsbD_or, Bool.or_eq_true]
    rcases owed_sets.mp hk with hk | hk
    · exact .inl (getLsbD_signals (.inl hk))
    · have hs := h k hk
      rw [BitVec.getLsbD_or, Bool.or_eq_true] at hs
      exact hs.imp_left fun hs => getLsbD_signals (.inr hs)
  have hr2c : vfMailboxR2cBits.getLsbD k.bit = true := by cases k <;> rfl
  simp only [BitVec.getLsbD_or, Bool.or_eq_true] at hpending
  simp only [readMailboxVf, BitVec.getLsbD_or, BitVec.getLsbD_and, hr2c, Bool.and_true,
    Bool.or_eq_true]
  tauto

def VfKeeps (m : VfM α) : Prop := ∀ s : VfMbx, s.Inv → (m s).2.Inv

theorem VfKeeps.bind {m : VfM α} {f : α → VfM β} (hm : VfKeeps m) (hf : ∀ x, VfKeeps (f x)) :
    VfKeeps (m >>= f) :=
  fun s hs => hf _ _ (hm s hs)

theorem VfKeeps.pure (x : α) : VfKeeps (pure x : VfM α) := fun _ hs => hs

theorem VfKeeps.ite {c : Prop} [Decidable c] {m n : VfM α} (hm : VfKeeps m) (hn : VfKeeps n) :
    VfKeeps (if c then m else n) := by
  split_ifs
  · exact hm
  · exact hn

theorem keeps_readMailboxVf : VfKeeps (readMailboxVf pf) := fun s hs k hk => by
  rw [BitVec.getLsbD_or, (readMailboxVf_owed hs hk).2, Bool.or_true]

theorem keeps_consumeVf (k : MbxKind) : VfKeeps (consumeVf k) := by
  intro s hs j ⟨hkj, hj⟩
  have hmask : (~~~k.mask).getLsbD j.bit = true := by
    cases j <;> cases k <;> first | rfl | exact absurd rfl hkj
  have howed := hs j hj
  rw [BitVec.getLsbD_or] at howed ⊢
  change (s.reg.getLsbD j.bit || (s.vfMailbox &&& ~~~k.mask).getLsbD j.bit) = true
  rwa [BitVec.getLsbD_and, hmask, Bool.and_true]

theorem keeps_clearVf (k : MbxKind) : VfKeeps (clearVf pf k) :=
  keeps_readMailboxVf.bind fun _ => .ite (keeps_consumeVf k) (.pure _)

theorem keeps_checkForBitVf (k : MbxKind) : VfKeeps (checkForBitVf pf k) :=
  keeps_readMailboxVf.bind fun _ => .pure _

theorem keeps_checkAndClearVf (k : MbxKind) : VfKeeps (checkAndClearVf pf k) :=
  (keeps_checkForBitVf k).bind fun _ =>
    .ite ((keeps_clearVf k).bind fun _ => .pure _) (.pure _)

theorem keeps_checkForMsgVf : VfKeeps (checkForMsgVf pf) :=
  (keeps_checkForBitVf _).bind fun _ => .ite (.pure _) (.pure _)

theorem keeps_obtainVfLoop (n : ℕ) : VfKeeps (obtainVfLoop pf n) := by
  induction n with
  | zero => exact .pure _
  | succ n ih =>
    exact keeps_readMailboxVf.bind fun _ => keeps_readMailboxVf.bind fun _ => .ite (.pure _) ih

theorem keeps_pollForAckVf (n : ℕ) : VfKeeps (pollForAckVf pf n) := by
  induction n with
  | zero => exact .pure _
  | succ n ih => exact (keeps_checkAndClearVf _).bind fun _ => .ite ih (.pure _)

theorem keeps_obtainMbxLockVf (timeout : ℕ) : VfKeeps (obtainMbxLockVf pf timeout) :=
  .ite (.pure _) (keeps_obtainVfLoop _)

theorem keeps_vfCall (c : VfCall) : VfKeeps (vfCall pf c) := by
  have hrelease : VfKeeps (releaseMbxLockVf pf) := keeps_readMailboxVf.bind fun _ => .pure _
  cases c with
  | checkForMsg => exact keeps_checkForMsgVf
  | checkForAck => exact keeps_checkAndClearVf _
  | checkForRst => exact keeps_checkAndClearVf _
  | writeMbx timeout =>
    have hsend : VfKeeps (sendMbxVf pf timeout) :=
      (keeps_clearVf _).bind fun _ => (keeps_clearVf _).bind fun _ =>
        keeps_readMailboxVf.bind fun _ => keeps_pollForAckVf _
    exact (keeps_obtainMbxLockVf _).bind fun _ => (VfKeeps.ite hsend (.pure _)).bind fun _ =>
      hrelease.bind fun _ => .pure _
  | readMbx =>
    exact keeps_checkForMsgVf.bind fun _ => .ite (.pure _) ((keeps_clearVf _).bind fun _ =>
      keeps_readMailboxVf.bind fun _ => .pure _)
  | obtainLock timeout => exact keeps_obtainMbxLockVf _
  | releaseLock => exact hrelease.bind fun _ => .pure _

/-- What is owed before a check, or signalled before its first read, is in the value it reads. -/
theorem checkForBitVf_owed (h : s.Inv) (hk : Owed k s.log ∨ k ∈ pf.signals s.reads) :
    (checkForBitVf pf k s).1 = true :=
  decide_eq_true (and_mask_ne_zero (readMailboxVf_owed h (owed_sets.mpr hk.symm)).1)

theorem checkAndClearVf_owed (h : s.Inv) (hk : Owed k s.log ∨ k ∈ pf.signals s.reads) :
    (checkAndClearVf pf k s).1 = success := by
  change ((if (checkForBitVf pf k s).1 = true then _ else _ : VfM ℤ) _).1 = success
  rw [if_pos (checkForBitVf_owed h hk)]
  rfl

theorem checkForMsgVf_owed (h : s.Inv) (hk : Owed .msg s.log ∨ .msg ∈ pf.signals s.reads) :
    (checkForMsgVf pf s).1 = success := by
  change ((if (checkForBitVf pf .msg s).1 = true then _ else _ : VfM ℤ) _).1 = success
  rw [if_pos (checkForBitVf_owed h hk)]
  rfl

theorem vfCall_owed (h : s.Inv) {c : VfCall} (hc : c.kind = some k)
    (hk : Owed k s.log ∨ k ∈ pf.signals s.reads) : (vfCall pf c s).1 = success := by
  cases c with
  | checkForMsg =>
    cases hc
    exact checkForMsgVf_owed h hk
  | checkForAck =>
    cases hc
    exact checkAndClearVf_owed h hk
  | checkForRst =>
    cases hc
    exact checkAndClearVf_owed h hk
  | readMbx =>
    cases hc
    change ((if (checkForMsgVf pf s).1 ≠ success then _ else _ : VfM ℤ) _).1 = success
    rw [if_neg (not_not.mpr (checkForMsgVf_owed h hk))]
    rfl
  | writeMbx | obtainLock | releaseLock => cases hc

end

/-- **No event is lost**: over every sequence of calls, each check returns success if an event of
its kind was set, before the call or before its first read of the register, and not consumed
since. -/
theorem vfMbx_reported (pf : PfActs) (cs : List VfCall) (reg vfMailbox : U32) :
    ∀ r ∈ vfCalls pf cs ⟨reg, vfMailbox, 0, []⟩, ∀ k, r.call.kind = some k →
      Owed k r.before.log ∨ k ∈ pf.signals r.before.reads → r.value = success := by
  have hrun (s : VfMbx) (hs : s.Inv) : ∀ r ∈ vfCalls pf cs s, ∀ k, r.call.kind = some k →
      Owed k r.before.log ∨ k ∈ pf.signals r.before.reads → r.value = success := by
    induction cs generalizing s with
    | nil => exact nofun
    | cons c cs ih =>
      intro r hr
      rcases List.mem_cons.mp hr with rfl | hr
      · exact fun k hc hk => vfCall_owed hs hc hk
      · exact ih _ (keeps_vfCall c s hs) r hr
  exact hrun _ fun _ h => h.elim

end

/-- A message comes while the VF takes the lock. -/
def messageFirst : PfActs := ⟨fun n => if n = 0 then [.msg] else [], fun _ => 0x4⟩

theorem vfMbx_reported_behind_lock :
    ∃ r ∈ vfCalls messageFirst [.obtainLock 1, .checkForMsg] ⟨0, 0, 0, []⟩,
      r.call = .checkForMsg ∧ Owed .msg r.before.log ∧ r.value = success := by
  have howed : Owed .msg (vfCall messageFirst (.obtainLock 1) ⟨0, 0, 0, []⟩).2.log := .inl rfl
  exact ⟨_, .tail _ (.head _), rfl, howed,
    vfMbx_reported messageFirst [.obtainLock 1, .checkForMsg] 0 0 _ (.tail _ (.head _)) .msg rfl
      (.inl howed)⟩

end Ixgbe
