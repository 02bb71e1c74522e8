import Ixgbe.Eeprom.HostifX550
import Ixgbe.Nvm.Access

/-! # Sending a command to the firmware of the E610

Driver and firmware both change the caller's descriptor and buffer while `ixgbe_aci_send_cmd`
repeats a command. -/

namespace Ixgbe

open List

/-- `struct ixgbe_aci_desc`, with the generic parameters. -/
structure AciDesc where
  flags : U16
  opcode : U16
  datalen : U16
  retval : U16
  cookieHigh : U32
  cookieLow : U32
  param0 : U32
  param1 : U32
  addrHigh : U32
  addrLow : U32

/-- The descriptor as the words of `raw_desc`. -/
def AciDesc.raw (d : AciDesc) : List U32 :=
  [d.opcode ++ d.flags, d.retval ++ d.datalen, d.cookieHigh, d.cookieLow, d.param0, d.param1,
    d.addrHigh, d.addrLow]

def AciDesc.ofRaw (w : ℕ → U32) : AciDesc where
  flags := (w 0).setWidth 16
  opcode := (w 0 >>> 16).setWidth 16
  datalen := (w 1).setWidth 16
  retval := (w 1 >>> 16).setWidth 16
  cookieHigh := w 2
  cookieLow := w 3
  param0 := w 4
  param1 := w 5
  addrHigh := w 6
  addrLow := w 7

def aciFlagLb : U16 := 0x200

def aciFlagRd : U16 := 0x400

def aciFlagBuf : U16 := 0x1000

def aciLgBuf : ℕ := 512

def hicrEn : U32 := shl1 0

def hicrC : U32 := shl1 1

def hicrSv : U32 := shl1 2

def hicrEv : U32 := shl1 3

def aciRcEbusy : ℕ := 12

def errAciDisabled : ℤ := -101

def errAciTimeout : ℤ := -102

def errAciBusy : ℤ := -103

def errOutOfMem : ℤ := -34

def aciOpcGetFwEvent : U16 := 0x0014

/-- What one attempt reads, and whether memory is granted. -/
structure AciResponses where
  hicr : U32
  hicrStart : U32
  sync : ℕ → U32
  async : ℕ → U32
  hida : ℕ → U32
  hida2 : ℕ → U32
  hiba : ℕ → U32
  malloc : Bool

/-- The values an attempt writes to `PF_HIBA`, `PF_HIDA` and `PF_HICR`. -/
structure AciWrites where
  hiba : List U32
  hida : List U32
  hicr : U32

/-- How an attempt ends, and what it wrote if it got to the registers. -/
structure AciAttempt where
  status : ℤ
  lastStatus : ℕ
  desc : AciDesc
  buf : Option (List U8)
  sent : Option AciWrites

def hicrWait (stop : U32 → Bool) (read : ℕ → U32) : ℕ → ℕ → U32 → U32
  | 0, _, hicr => hicr
  | n + 1, i, _ => if stop (read i) then read i else hicrWait stop read n (i + 1) (read i)

def AciResponses.answered (e : AciResponses) : U32 :=
  let hicr := hicrWait (fun h => h &&& hicrSv ≠ 0 || h &&& hicrC = 0) e.sync 100000 0 e.hicrStart
  if hicr &&& hicrSv ≠ 0 ∧ hicr &&& hicrC ≠ 0 then
    hicrWait (fun h => h &&& hicrEv ≠ 0 || h &&& hicrC = 0) e.async 150000 0 hicr
  else hicr

def AciDesc.mark (desc : AciDesc) (buf : Option (List U8)) : AciDesc :=
  if buf.isSome then { desc with flags := desc.flags ||| aciFlagBuf } else desc

def tmpBufSize (bufSize : ℕ) : ℕ := if bufSize % 4 = 0 then bufSize else bufSize / 4 * 4 + 4

/-- The buffer in whole dwords, filled up with `0xFF`. -/
def tmpBuf (bytes : List U8) (bufSize : ℕ) : List U32 :=
  (List.range (tmpBufSize bufSize / 4)).map fun i =>
    let byte := fun k => (bytes.take bufSize).getD (4 * i + k) 0xFF
    dword (byte 0) (byte 1) (byte 2) (byte 3)

def AciDesc.fill (desc : AciDesc) (bufSize : ℕ) : AciDesc :=
  { desc with
    flags := if tmpBufSize bufSize > aciLgBuf then desc.flags ||| aciFlagLb else desc.flags
    datalen := BitVec.ofNat 16 bufSize }

/-- `valid_buf`, for a descriptor that is marked. -/
def AciDesc.validBuf (desc : AciDesc) (buf : Option (List U8)) (bufSize : ℕ) : Bool :=
  desc.flags &&& aciFlagBuf ≠ 0 && buf.isSome && bufSize ≠ 0

/-- What is written for a marked descriptor. -/
def aciSent (desc : AciDesc) (buf : Option (List U8)) (bufSize : ℕ) : List U32 × AciDesc :=
  if desc.validBuf buf bufSize then
    let desc := desc.fill bufSize
    (if desc.flags &&& aciFlagRd ≠ 0 then tmpBuf (buf.getD []) bufSize else [], desc)
  else ([], desc)

def memcpy (dst src : List U8) (n : ℕ) : List U8 := src.take n ++ dst.drop n

def hibaBytes (hiba : ℕ → U32) (n : ℕ) : List U8 :=
  (List.range n).map fun i => byteOf (hiba (i / 4)) (i % 4)

/-- The answer overwrites the descriptor, and the buffer on success. -/
def aciReadAnswer (e : AciResponses) (opcode : U16) (desc : AciDesc) (validBuf : Bool)
    (buf : Option (List U8)) (bufSize : ℕ) (writes : AciWrites) : AciAttempt :=
  let hicr := e.answered
  let desc := if hicr &&& hicrSv ≠ 0 then AciDesc.ofRaw e.hida else desc
  let desc := if hicr &&& hicrEv ≠ 0 ∧ hicr &&& hicrC = 0 then AciDesc.ofRaw e.hida2 else desc
  if hicr &&& hicrC ≠ 0 then ⟨errAciTimeout, aciRcOk, desc, buf, writes⟩
  else if hicr &&& hicrSv = 0 ∧ hicr &&& hicrEv = 0 then ⟨errAciError, aciRcOk, desc, buf, writes⟩
  else if desc.opcode ≠ opcode ∧ opcode ≠ aciOpcGetFwEvent then
    ⟨errAciError, aciRcOk, desc, buf, writes⟩
  else if desc.retval.toNat ≠ aciRcOk then ⟨errAciError, desc.retval.toNat, desc, buf, writes⟩
  else if validBuf ∧ desc.flags &&& aciFlagBuf ≠ 0 then
    ⟨success, aciRcOk, desc,
      buf.map (memcpy · (hibaBytes e.hiba (tmpBufSize bufSize)) bufSize), writes⟩
  else ⟨success, aciRcOk, desc, buf, writes⟩

def aciSendCmdExecute (e : AciResponses) (desc : AciDesc) (buf : Option (List U8)) (bufSize : ℕ) :
    AciAttempt :=
  let marked := desc.mark buf
  let validBuf := marked.validBuf buf bufSize
  if e.hicr &&& hicrEn = 0 then ⟨errAciDisabled, aciRcOk, desc, buf, none⟩
  else if e.hicr &&& hicrC ≠ 0 then ⟨errAciBusy, aciRcEbusy, desc, buf, none⟩
  else if bufSize > aciMaxBufferSize then ⟨errParam, aciRcOk, desc, buf, none⟩
  else if marked.flags &&& aciFlagBuf ≠ 0 ∧
      (buf.isSome ∧ bufSize = 0 ∨ buf.isNone ∧ bufSize ≠ 0) then
    ⟨errParam, aciRcOk, marked, buf, none⟩
  else if validBuf && !e.malloc then ⟨errOutOfMem, aciRcOk, marked, buf, none⟩
  else
    let sent := aciSent marked buf bufSize
    aciReadAnswer e desc.opcode sent.2 validBuf buf bufSize
      ⟨sent.1, sent.2.raw, (e.hicrStart ||| hicrC) &&& ~~~(hicrSv ||| hicrEv)⟩

/-- `disable_rxen`, `get_phy_caps`, `get_link_status` and `get_link_topo`. -/
def shouldRetryAciSendCmdExecute (opcode : U16) : Bool :=
  opcode = 0x000C || opcode = 0x0600 || opcode = 0x0607 || opcode = 0x06E0

def aciSendMaxExecute : ℕ := 3

/-- An error after which a command of the retry list is sent again. -/
def AciAttempt.Retryable (a : AciAttempt) : Prop :=
  a.status ≠ success ∧ (a.lastStatus = aciRcEbusy ∨ a.status = errAciError)

instance AciAttempt.decidableRetryable (a : AciAttempt) : Decidable a.Retryable :=
  inferInstanceAs (Decidable (_ ∧ _))

structure AciResult where
  status : ℤ
  desc : AciDesc
  buf : Option (List U8)
  attempts : List AciAttempt

def putBack (bufCpy : List U8) (bufSize : ℕ) (buf : Option (List U8)) : Option (List U8) :=
  buf.map (memcpy · bufCpy bufSize)

def aciSendCmdLoop (env : ℕ → AciResponses) (retry : Bool) (descCpy : AciDesc) (bufCpy : List U8)
    (bufSize : ℕ) : ℕ → ℕ → AciDesc → Option (List U8) → AciResult
  | 0, idx, desc, buf =>
    let a := aciSendCmdExecute (env idx) desc buf bufSize
    if retry ∧ a.Retryable then
      ⟨a.status, descCpy, putBack bufCpy bufSize a.buf, [a]⟩
    else ⟨a.status, a.desc, a.buf, [a]⟩
  | left + 1, idx, desc, buf =>
    let a := aciSendCmdExecute (env idx) desc buf bufSize
    if retry ∧ a.Retryable then
      let r := aciSendCmdLoop env retry descCpy bufCpy bufSize left (idx + 1) descCpy
        (putBack bufCpy bufSize a.buf)
      { r with attempts := a :: r.attempts }
    else ⟨a.status, a.desc, a.buf, [a]⟩

/-- `copyOk` tells whether there is memory for the copy of the buffer. -/
def aciSendCmd (env : ℕ → AciResponses) (copyOk : Bool) (desc : AciDesc) (buf : Option (List U8))
    (bufSize : ℕ) : AciResult :=
  let retry := shouldRetryAciSendCmdExecute desc.opcode
  if retry && buf.isSome && !copyOk then ⟨errOutOfMem, desc, buf, []⟩
  else aciSendCmdLoop env retry desc ((buf.getD []).take bufSize) bufSize (aciSendMaxExecute - 1) 0
    desc buf

theorem memcpy_memcpy_take (dst src : List U8) {n : ℕ} (h : n ≤ src.length) :
    memcpy (memcpy dst src n) (dst.take n) n = dst := by
  have hlen : (src.take n).length = n := by simp [h]
  rw [memcpy, memcpy, drop_left' hlen, take_take, min_self, take_append_drop]

variable (e : AciResponses) (desc : AciDesc) (buf : Option (List U8)) (bufSize : ℕ)

theorem aciReadAnswer_spec (opcode : U16) (validBuf : Bool) (w : AciWrites) :
    let a := aciReadAnswer e opcode desc validBuf buf bufSize w
    a.sent = some w ∧ (a.buf = buf ∨
      a.buf = buf.map (memcpy · (hibaBytes e.hiba (tmpBufSize bufSize)) bufSize)) := by
  unfold aciReadAnswer
  dsimp only
  split_ifs <;> simp

theorem aciSendCmdExecute_sent {w : AciWrites}
    (hw : (aciSendCmdExecute e desc buf bufSize).sent = some w) :
    w.hiba = (aciSent (desc.mark buf) buf bufSize).1 ∧
      w.hida = (aciSent (desc.mark buf) buf bufSize).2.raw := by
  -- an attempt that does not get to the registers sends nothing
  unfold aciSendCmdExecute at hw
  dsimp only at hw
  split_ifs at hw
  rw [(aciReadAnswer_spec ..).1] at hw
  cases hw
  exact ⟨rfl, rfl⟩

theorem putBack_aciSendCmdExecute :
    putBack ((buf.getD []).take bufSize) bufSize (aciSendCmdExecute e desc buf bufSize).buf =
      buf := by
  have hsize : bufSize ≤ tmpBufSize bufSize := by
    rw [tmpBufSize]
    split_ifs <;> omega
  have hself : putBack ((buf.getD []).take bufSize) bufSize buf = buf := by
    cases buf with
    | none => rfl
    | some b => exact congrArg some (by simp [memcpy, take_take])
  have hcopied : putBack ((buf.getD []).take bufSize) bufSize
      (buf.map (memcpy · (hibaBytes e.hiba (tmpBufSize bufSize)) bufSize)) = buf := by
    cases buf with
    | none => rfl
    | some b => exact congrArg some (memcpy_memcpy_take b _ (by simpa [hibaBytes] using hsize))
  unfold aciSendCmdExecute
  dsimp only
  split_ifs
  iterate 5 exact hself
  rcases (aciReadAnswer_spec e (aciSent (desc.mark buf) buf bufSize).2 buf bufSize desc.opcode
    ((desc.mark buf).validBuf buf bufSize) _).2 with h | h <;> rw [h]
  · exact hself
  · exact hcopied

/-- **The loop**: every attempt starts from the caller's data. -/
theorem aciSendCmdLoop_spec (env : ℕ → AciResponses) (left idx : ℕ) :
    let r := aciSendCmdLoop env true desc ((buf.getD []).take bufSize) bufSize left idx desc buf
    (∀ a ∈ r.attempts, ∃ i, a = aciSendCmdExecute (env i) desc buf bufSize) ∧
      r.attempts.length ≤ left + 1 ∧
      (r.attempts.length = left + 1 → (∀ a ∈ r.attempts, a.Retryable) →
        r.status ≠ success ∧ r.desc = desc ∧ r.buf = buf) := by
  induction left generalizing idx with
  | zero =>
    have hback := putBack_aciSendCmdExecute (env idx) desc buf bufSize
    rw [aciSendCmdLoop]
    by_cases h : (aciSendCmdExecute (env idx) desc buf bufSize).Retryable
    · simp only [h, and_self, if_true, hback, forall_mem_singleton]
      exact ⟨⟨idx, rfl⟩, le_rfl, fun _ _ => by simpa using h.1⟩
    · simp only [h, and_false, if_false, forall_mem_singleton]
      exact ⟨⟨idx, rfl⟩, le_rfl, nofun⟩
  | succ left ih =>
    have hback := putBack_aciSendCmdExecute (env idx) desc buf bufSize
    rw [aciSendCmdLoop]
    by_cases h : (aciSendCmdExecute (env idx) desc buf bufSize).Retryable
    · obtain ⟨hall, hlen, hlast⟩ := ih (idx + 1)
      simp only [h, and_self, if_true, hback, forall_mem_cons, length_cons, true_and,
        Nat.add_right_cancel_iff]
      exact ⟨⟨⟨idx, rfl⟩, hall⟩, Nat.succ_le_succ hlen, hlast⟩
    · simp only [h, and_false, if_false, forall_mem_singleton]
      exact ⟨⟨idx, rfl⟩, by simp, nofun⟩

/-- **A command is sent again as it was**, at most twice and only if in the retry list; if all fail,
the caller has descriptor and buffer as they were. -/
theorem aci_retry_same_command (env : ℕ → AciResponses) (copyOk : Bool) (desc : AciDesc)
    (buf : Option (List U8)) (bufSize : ℕ) :
    let r := aciSendCmd env copyOk desc buf bufSize
    (∀ a ∈ r.attempts, ∀ a' ∈ r.attempts, ∀ w ∈ a.sent, ∀ w' ∈ a'.sent,
      w'.hida = w.hida ∧ w'.hiba = w.hiba) ∧
    (shouldRetryAciSendCmdExecute desc.opcode = false → r.attempts.length = 1) ∧
    r.attempts.length ≤ aciSendMaxExecute ∧
    (shouldRetryAciSendCmdExecute desc.opcode = true → r.attempts.length = aciSendMaxExecute →
      (∀ a ∈ r.attempts, a.Retryable) → r.status ≠ success ∧ r.desc = desc ∧ r.buf = buf) := by
  have hsame : ∀ as : List AciAttempt,
      (∀ a ∈ as, ∃ i, a = aciSendCmdExecute (env i) desc buf bufSize) →
      ∀ a ∈ as, ∀ a' ∈ as, ∀ w ∈ a.sent, ∀ w' ∈ a'.sent, w'.hida = w.hida ∧ w'.hiba = w.hiba := by
    intro as hall a ha a' ha' w hw w' hw'
    obtain ⟨i, rfl⟩ := hall a ha
    obtain ⟨i', rfl⟩ := hall a' ha'
    obtain ⟨hiba, hida⟩ := aciSendCmdExecute_sent (env i) desc buf bufSize hw
    obtain ⟨hiba', hida'⟩ := aciSendCmdExecute_sent (env i') desc buf bufSize hw'
    exact ⟨hida'.trans hida.symm, hiba'.trans hiba.symm⟩
  unfold aciSendCmd
  cases hretry : shouldRetryAciSendCmdExecute desc.opcode with
  | false =>
    -- the first attempt is the last
    rw [if_neg (by simp), aciSendMaxExecute, aciSendCmdLoop]
    exact ⟨hsame _ fun a ha => ⟨0, by simpa using ha⟩, by simp⟩
  | true =>
    by_cases hcopy : (true && buf.isSome && !copyOk) = true
    · rw [if_pos hcopy]
      exact ⟨nofun, nofun, Nat.zero_le _, nofun⟩
    · rw [if_neg hcopy]
      obtain ⟨hall, hlen, hlast⟩ :=
        aciSendCmdLoop_spec desc buf bufSize env (aciSendMaxExecute - 1) 0
      exact ⟨hsame _ hall, nofun, hlen, fun _ => hlast⟩

end Ixgbe
