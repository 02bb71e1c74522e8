import Ixgbe.Nvm.Access

/-! # The size of the flash

`ixgbe_discover_flash_size` bisects with one-byte reads: firmware answers one beyond the size with
`EINVAL`. -/

namespace Ixgbe

open List Nat

namespace NvmFirmware

variable (fw : NvmFirmware)

def bisect (minSize maxSize : ℕ) (hw : NvmHw) : ℤ × NvmHw :=
  if maxSize - minSize > 1 then
    let offset := (maxSize + minSize) / 2
    let r := fw.readFlatNvm offset 1 false hw fun _ => 0
    if r.1 = errAciError ∧ r.2.2.1.lastStatus = aciRcEinval then bisect minSize offset r.2.2.1
    else if r.1 = success then bisect offset maxSize r.2.2.1
    else (r.1, r.2.2.1) -- an unexpected error occurred
  else (success, { hw with flashSize := maxSize })
termination_by maxSize - minSize
decreasing_by all_goals omega

def discoverFlashSize (hw : NvmHw) : ℤ × NvmHw :=
  let a := fw.acquireNvm hw
  if a.1 ≠ success then a
  else
    let r := fw.bisect 0 (aciNvmMaxOffset + 1) a.2
    (r.1, fw.releaseNvm r.2)

abbrev byteCmd (offset : ℕ) : NvmCmd := readCmd aciNvmStartPoint offset 1 true false

/-- The driver after the byte at `offset` was asked for. -/
def afterByte (offset : ℕ) (hw : NvmHw) : NvmHw :=
  let r := fw.reply hw.sent.length (byteCmd offset)
  { hw with sent := hw.sent ++ [⟨byteCmd offset, r.1, r.2⟩], lastStatus := r.2 }

theorem readFlatNvm_byte {offset : ℕ} (h : offset ≤ aciNvmMaxOffset) (hw : NvmHw) (buf : NvmBuf) :
    (fw.readFlatNvm offset 1 false hw buf).1 = (fw.reply hw.sent.length (byteCmd offset)).1 ∧
      (fw.readFlatNvm offset 1 false hw buf).2.2.1 = fw.afterByte offset hw := by
  have hlt : offset < 2 ^ 32 := lt_of_le_of_lt h (by decide)
  have hsize : readSize offset 1 0 = 1 := by
    have := mod_lt ((offset + 0) % 2 ^ 32) (show 0 < aciMaxBufferSize by decide)
    unfold readSize
    omega
  have hlast : Chunked.isLast (readSize offset 1) 1 0 = true := by
    rw [Chunked.isLast, hsize]
    rfl
  have hstep : fw.aciReadNvm aciNvmStartPoint ((offset + 0) % 2 ^ 32)
      (readSize offset 1 0 % 2 ^ 16) 0
      true false (hw, buf) = ((fw.reply hw.sent.length (byteCmd offset)).1, fw.afterByte offset hw,
        if (fw.reply hw.sent.length (byteCmd offset)).1 = success then
          buf.fill 0 1 (fw.bytes (byteCmd offset)) else buf) := by
    rw [hsize, add_zero, mod_eq_of_lt hlt, aciReadNvm, if_neg (not_lt.mpr h)]
    rfl
  unfold readFlatNvm
  rw [if_neg (fun hc => Bool.false_ne_true hc.1)]
  obtain ⟨hstatus, hstate⟩ := Chunked.loop_of_isLast (fun bytesRead size last s =>
    fw.aciReadNvm aciNvmStartPoint ((offset + bytesRead) % 2 ^ 32) (size % 2 ^ 16) bytesRead last
      false s) 1 (hw, buf) hlast
  rw [hstatus, hstate, hstep]
  exact ⟨rfl, rfl⟩

theorem bisect_step {minSize maxSize : ℕ} (hmore : maxSize - minSize > 1)
    (hle : (maxSize + minSize) / 2 ≤ aciNvmMaxOffset) (hw : NvmHw) :
    fw.bisect minSize maxSize hw =
      let offset := (maxSize + minSize) / 2
      let r := fw.reply hw.sent.length (byteCmd offset)
      if r.1 = errAciError ∧ r.2 = aciRcEinval then
        fw.bisect minSize offset (fw.afterByte offset hw)
      else if r.1 = success then fw.bisect offset maxSize (fw.afterByte offset hw)
      else (r.1, fw.afterByte offset hw) := by
  obtain ⟨hstatus, hafter⟩ := fw.readFlatNvm_byte hle hw fun _ => 0
  rw [bisect, if_pos hmore]
  dsimp only
  rw [hstatus, hafter]
  rfl

/-- Reads succeed below `S`, the others give `EINVAL`. -/
def FlashHasSize (S : ℕ) : Prop :=
  ∀ k c, c.opcode = .read → c.length = 1 →
    (c.offset < S → (fw.reply k c).1 = success) ∧
    (S ≤ c.offset → fw.reply k c = (errAciError, aciRcEinval))

def ByteReads (cmds : List SentCmd) : Prop :=
  ∀ c ∈ cmds, c.cmd.opcode = .read ∧ c.cmd.length = 1

variable {fw}

theorem bisect_eq {S : ℕ} (hS : fw.FlashHasSize S) (k minSize : ℕ) (hw : NvmHw)
    (hlow : minSize < S) (hhigh : S ≤ minSize + 2 ^ k)
    (hmax : minSize + 2 ^ k ≤ aciNvmMaxOffset + 1) :
    (fw.bisect minSize (minSize + 2 ^ k) hw).1 = success ∧
      (fw.bisect minSize (minSize + 2 ^ k) hw).2.flashSize = S ∧
      (fw.bisect minSize (minSize + 2 ^ k) hw).2.sent.length = hw.sent.length + k := by
  induction k generalizing minSize hw with
  | zero =>
    rw [bisect, if_neg (by omega)]
    exact ⟨rfl, by dsimp only; omega, rfl⟩
  | succ k ih =>
    have hpow : 2 ^ (k + 1) = 2 ^ k + 2 ^ k := by rw [Nat.pow_succ, Nat.mul_two]
    have hmid : (minSize + 2 ^ (k + 1) + minSize) / 2 = minSize + 2 ^ k := by omega
    have hle : minSize + 2 ^ k ≤ aciNvmMaxOffset := by omega
    obtain ⟨hbelow, habove⟩ := hS hw.sent.length (byteCmd (minSize + 2 ^ k)) rfl rfl
    have hoff : (byteCmd (minSize + 2 ^ k)).offset = minSize + 2 ^ k := by
      change (minSize + 2 ^ k) / 2 ^ 16 % 2 ^ 8 * 2 ^ 16 + (minSize + 2 ^ k) % 2 ^ 16 = _
      have : minSize + 2 ^ k < 2 ^ 24 := lt_succ_of_le hle
      omega
    rw [hoff] at hbelow habove
    -- the reads of the other half come after this one
    have hlen : hw.sent.length + (k + 1) =
        (fw.afterByte (minSize + 2 ^ k) hw).sent.length + k := by
      rw [afterByte, length_append, length_singleton, add_assoc, add_comm 1]
    rw [fw.bisect_step (by omega) (hmid.symm ▸ hle), hlen]
    rw [hmid]
    rcases lt_or_ge (minSize + 2 ^ k) S with hin | hout
    · have hok := hbelow hin
      rw [if_neg (fun hc => absurd (hok.symm.trans hc.1) (by decide)), if_pos hok, hpow,
        ← add_assoc]
      exact ih (minSize + 2 ^ k) (fw.afterByte (minSize + 2 ^ k) hw) hin (by omega) (by omega)
    · have hfail := habove hout
      rw [if_pos ⟨by rw [hfail], by rw [hfail]⟩]
      exact ih minSize (fw.afterByte (minSize + 2 ^ k) hw) hlow hout (by omega)

def Unexpected (c : SentCmd) : Prop :=
  c.status ≠ success ∧ ¬ (c.status = errAciError ∧ c.lastStatus = aciRcEinval)

/-- One-byte reads were sent, and an unexpected error of one is the result `r`. -/
def LogsBytes (hw : NvmHw) (r : ℤ × NvmHw) : Prop :=
  ∃ cmds, r.2.sent = hw.sent ++ cmds ∧ ByteReads cmds ∧
    ∀ c ∈ cmds, Unexpected c → r.1 = c.status ∧ r.2.flashSize = hw.flashSize

theorem bisect_log {minSize maxSize : ℕ} (hw : NvmHw) (hlt : minSize < maxSize)
    (hmax : maxSize ≤ aciNvmMaxOffset + 1) : LogsBytes hw (fw.bisect minSize maxSize hw) := by
  induction hrange : maxSize - minSize using Nat.strong_induction_on generalizing minSize maxSize hw
    with
  | h range ih =>
    by_cases hmore : maxSize - minSize > 1
    · generalize hmid : (maxSize + minSize) / 2 = offset
      have hstep := fw.bisect_step hmore (by omega) hw
      rw [hmid] at hstep
      rw [hstep]
      -- a search that goes on after a read that was expected
      have hgo : ∀ {lo hi : ℕ}, lo < hi → hi ≤ aciNvmMaxOffset + 1 → hi - lo < range →
          ¬ Unexpected ⟨byteCmd offset, (fw.reply hw.sent.length (byteCmd offset)).1,
            (fw.reply hw.sent.length (byteCmd offset)).2⟩ →
          LogsBytes hw (fw.bisect lo hi (fw.afterByte offset hw)) := by
        intro lo hi hlo hhi hless hexpected
        obtain ⟨cmds, hsent, hreads, herr⟩ :=
          ih (hi - lo) hless (fw.afterByte offset hw) hlo hhi rfl
        refine ⟨_ :: cmds, by rw [hsent, afterByte, append_assoc]; rfl, ?_, ?_⟩
        · exact forall_mem_cons.mpr ⟨⟨rfl, rfl⟩, hreads⟩
        · exact forall_mem_cons.mpr ⟨fun hun => absurd hun hexpected, herr⟩
      by_cases hinval : (fw.reply hw.sent.length (byteCmd offset)).1 = errAciError ∧
          (fw.reply hw.sent.length (byteCmd offset)).2 = aciRcEinval
      · rw [if_pos hinval]
        exact hgo (by omega) (by omega) (by omega) fun hun => hun.2 hinval
      · rw [if_neg hinval]
        split
        case isTrue hok =>
          exact hgo (by omega) hmax (by omega) fun hun => hun.1 hok
        · exact ⟨[_], rfl, forall_mem_singleton.mpr ⟨rfl, rfl⟩,
            forall_mem_singleton.mpr fun _ => ⟨rfl, rfl⟩⟩
    · rw [bisect, if_neg hmore]
      exact ⟨[], (append_nil _).symm, fun _ h => absurd h not_mem_nil,
        fun _ h => absurd h not_mem_nil⟩

variable (fw)

def Released (hw : NvmHw) : Prop := fw.flaLocked = true → hw.held = false

theorem released_releaseNvm (hw : NvmHw) : fw.Released (fw.releaseNvm hw) := by
  intro hlocked
  rw [releaseNvm, if_pos hlocked]

theorem releaseNvm_eq (hw : NvmHw) :
    (fw.releaseNvm hw).sent = hw.sent ∧ (fw.releaseNvm hw).flashSize = hw.flashSize := by
  unfold releaseNvm
  split <;> exact ⟨rfl, rfl⟩

theorem acquireNvm_eq (hw : NvmHw) :
    (fw.acquireNvm hw).2.sent = hw.sent ∧ (fw.acquireNvm hw).2.flashSize = hw.flashSize := by
  unfold acquireNvm
  split <;> exact ⟨rfl, rfl⟩

/-- **The size is found by bisection** with 24 one-byte reads; another error is returned and leaves
the size. -/
theorem discoverFlashSize_bisects (hw : NvmHw) :
    ((fw.acquireNvm hw).1 = success → ∀ S, 1 ≤ S → S ≤ 2 ^ 24 → fw.FlashHasSize S →
      (fw.discoverFlashSize hw).1 = success ∧ (fw.discoverFlashSize hw).2.flashSize = S ∧
        fw.Released (fw.discoverFlashSize hw).2 ∧
        ∃ cmds, (fw.discoverFlashSize hw).2.sent = hw.sent ++ cmds ∧ cmds.length = 24 ∧
          ByteReads cmds) ∧
    (∃ cmds, (fw.discoverFlashSize hw).2.sent = hw.sent ++ cmds ∧ ByteReads cmds ∧
      ∀ c ∈ cmds, Unexpected c → (fw.discoverFlashSize hw).1 = c.status ∧
        (fw.discoverFlashSize hw).2.flashSize = hw.flashSize ∧
        fw.Released (fw.discoverFlashSize hw).2) ∧
    ((fw.acquireNvm hw).1 ≠ success → (fw.discoverFlashSize hw).1 = (fw.acquireNvm hw).1 ∧
      (fw.discoverFlashSize hw).2.flashSize = hw.flashSize ∧
      (fw.discoverFlashSize hw).2.sent = hw.sent) := by
  obtain ⟨hsent, hsize⟩ := fw.acquireNvm_eq hw
  unfold discoverFlashSize
  by_cases hacq : (fw.acquireNvm hw).1 = success
  · rw [if_neg (not_not.mpr hacq)]
    have hrel := fw.releaseNvm_eq (fw.bisect 0 (aciNvmMaxOffset + 1) (fw.acquireNvm hw).2).2
    rw [← hsent, ← hsize, hrel.1, hrel.2]
    obtain ⟨cmds, hlog, hreads, herr⟩ := fw.bisect_log (fw.acquireNvm hw).2
      (succ_pos aciNvmMaxOffset) le_rfl
    refine ⟨fun _ S hpos hle hS => ?_, ⟨cmds, hlog, hreads, fun c hc hun => ?_⟩,
      fun hno => absurd hacq hno⟩
    · have hrange : 0 + 2 ^ 24 = aciNvmMaxOffset + 1 := rfl
      have hfound := bisect_eq hS 24 0 (fw.acquireNvm hw).2 hpos (by omega) (by decide)
      rw [hrange, hlog, length_append, Nat.add_left_cancel_iff] at hfound
      exact ⟨hfound.1, hfound.2.1, fw.released_releaseNvm _, cmds, hlog, hfound.2.2, hreads⟩
    · exact ⟨(herr c hc hun).1, (herr c hc hun).2, fw.released_releaseNvm _⟩
  · rw [if_pos hacq]
    refine ⟨fun h => absurd h hacq, ⟨[], by rw [hsent, List.append_nil], ?_, ?_⟩,
      fun _ => ⟨rfl, hsize, hsent⟩⟩
    · exact fun _ h => absurd h List.not_mem_nil
    · exact fun _ h => absurd h List.not_mem_nil

def ofFlashSize (S : ℕ) : NvmFirmware where
  flash := fun _ => 0
  shadowRam := fun _ => 0
  reply := fun _ c => if c.offset < S then (success, aciRcOk) else (errAciError, aciRcEinval)
  acquireRes := fun _ => success
  flaLocked := true
  srWords := 0
  resetAvoidance := false

theorem flashHasSize_ofFlashSize (S : ℕ) : (ofFlashSize S).FlashHasSize S :=
  fun _ _ _ _ => ⟨fun h => by rw [ofFlashSize]; dsimp only; rw [if_pos h],
    fun h => if_neg (not_lt.mpr h)⟩

theorem discoverFlashSize_five :
    ((ofFlashSize 5).discoverFlashSize freshNvmHw).2.flashSize = 5 ∧
      (ofFlashSize 5).Released ((ofFlashSize 5).discoverFlashSize freshNvmHw).2 :=
  have h := ((ofFlashSize 5).discoverFlashSize_bisects freshNvmHw).1 rfl 5 (by decide) (by decide)
    (flashHasSize_ofFlashSize 5)
  ⟨h.2.1, h.2.2.1⟩

end NvmFirmware

end Ixgbe
