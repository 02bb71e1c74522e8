import Ixgbe.Queues.Config

/-! # Commands to the management firmware

A block is written to the FLEX_MNG area, and the reply, a header with its length and the rest,
copied over the request. -/

namespace Ixgbe

open List

def errHostInterfaceCommand : ℤ := -33

def hiMaxBlockByteLength : ℕ := 1792

def applyUpdateCmd : U8 := 0x38

def gssrSwMngSm : U32 := 0x0400

section

variable {length : ℕ} (flex : ℕ → U32)

def byteOf (x : U32) (i : ℕ) : U8 := (x >>> (8 * i)).setWidth 8

structure HicReply where
  enabled : Bool
  pending : ℕ → Bool
  statusValid : Bool
  flex : ℕ → U32

def hicUnlocked (r : HicReply) (request : U32) (length timeout : ℕ) : ℤ :=
  if length = 0 ∨ length > hiMaxBlockByteLength then errHostInterfaceCommand
  else if !r.enabled then errHostInterfaceCommand
  else if length % 4 ≠ 0 then errInvalidArgument
  else
    let done := pollUntil (fun k => !r.pending k) timeout 0
    if byteOf request 0 = applyUpdateCmd then success
    else if (timeout ≠ 0 ∧ !done) ∨ !r.statusValid then errHostInterfaceCommand
    else success

/-- With the indices stored into. -/
structure ReplyBuffer where
  words : ℕ → U32
  stores : List ℕ

def pull (flex : ℕ → U32) : ℕ → ℕ → ReplyBuffer → ReplyBuffer
  | 0, _, b => b
  | n + 1, bi, b => pull flex n (bi + 1)
      { words := Function.update b.words bi (flex bi), stores := b.stores ++ [bi] }

/-- The header, two more dwords if it is the reply to a read of the flash, and the rest. -/
def readReply (length : ℕ) (b : ReplyBuffer) : ℤ × ReplyBuffer :=
  let b := pull flex 1 0 b
  let resp := b.words 0
  let flash := byteOf resp 0 = 0x30 ∨ byteOf resp 0 = 0x31
  let b := if flash then pull flex 2 1 b else b
  let bi := if flash then 3 else 1
  let bufLen := if flash then
      ((((byteOf resp 2).setWidth 16 <<< 3) &&& 0xF00) ||| (byteOf resp 1).setWidth 16).toNat
    else (byteOf resp 1).toNat
  let hdrSize := if flash then 12 else 4
  if bufLen = 0 then (success, b)
  else if length < bufLen + hdrSize then (errHostInterfaceCommand, b)
  else (success, pull flex ((bufLen + 3) / 4 + 1 - bi) bi b)

inductive SemEvent
  | acquired (mask : U32)
  | released (mask : U32)
deriving DecidableEq, Repr

structure HostResult where
  status : ℤ
  buffer : ReplyBuffer
  events : List SemEvent

/-- `sync` is what the semaphore function returns. -/
def hostInterfaceCommand (sync : ℤ) (r : HicReply) (words : ℕ → U32) (length timeout : ℕ)
    (returnData : Bool) : HostResult :=
  let b : ReplyBuffer := { words := words, stores := [] }
  if length = 0 ∨ length > hiMaxBlockByteLength then ⟨errHostInterfaceCommand, b, []⟩
  else if sync ≠ success then ⟨sync, b, []⟩
  else
    let held : List SemEvent := [.acquired gssrSwMngSm, .released gssrSwMngSm]
    let status := hicUnlocked r (words 0) length timeout
    if status ≠ success then ⟨status, b, held⟩
    else if !returnData then ⟨success, b, held⟩
    else
      let reply := readReply r.flex length b
      ⟨reply.1, reply.2, held⟩

theorem pull_stores (n bi : ℕ) (b : ReplyBuffer) :
    (pull flex n bi b).stores = b.stores ++ List.range' bi n := by
  induction n generalizing bi b with
  | zero => exact (append_nil _).symm
  | succ n ih =>
    rw [pull, ih, range'_succ, append_assoc]
    rfl

theorem pull_words_of_lt (n : ℕ) {bi j : ℕ} (b : ReplyBuffer) (h : j < bi) :
    (pull flex n bi b).words j = b.words j := by
  induction n generalizing bi b with
  | zero => rfl
  | succ n ih =>
    rw [pull, ih _ (by omega)]
    exact Function.update_of_ne (by omega) ..

theorem pull_head (b : ReplyBuffer) : (pull flex 1 0 b).words 0 = flex 0 := by
  simp [pull]

theorem readReply_words_zero (length : ℕ) (b : ReplyBuffer) :
    (readReply flex length b).2.words 0 = flex 0 := by
  have hhead := pull_head flex b
  simp only [readReply, hhead]
  by_cases hflash : byteOf (flex 0) 0 = 0x30 ∨ byteOf (flex 0) 0 = 0x31
  · simp only [if_pos hflash]
    split
    · rw [pull_words_of_lt _ _ _ (by decide), hhead]
    · split
      · rw [pull_words_of_lt _ _ _ (by decide), hhead]
      · rw [pull_words_of_lt _ _ _ (by decide), pull_words_of_lt _ _ _ (by decide), hhead]
  · simp only [if_neg hflash]
    split
    · exact hhead
    · split
      · exact hhead
      · rw [pull_words_of_lt _ _ _ (by decide), hhead]

theorem rest_in_buffer {flex : ℕ → U32} {bufLen hdr bi : ℕ} {b : ReplyBuffer}
    (hlen : length % 4 = 0) (hroom : ¬ length < bufLen + hdr) (hhdr : 4 ≤ hdr) :
    (∀ j ∈ (pull flex ((bufLen + 3) / 4 + 1 - bi) bi b).stores, j < length / 4) ↔
      ∀ j ∈ b.stores, j < length / 4 := by
  rw [pull_stores]
  refine ⟨fun h j hj => h j (mem_append_left _ hj), fun h j hj => ?_⟩
  rcases mem_append.mp hj with hj | hj
  · exact h j hj
  · rw [mem_range'_1] at hj
    omega

theorem readReply_stores_of_not_flash {flex : ℕ → U32} {b : ReplyBuffer} (hb : b.stores = [])
    (hlen : length % 4 = 0) (hpos : 0 < length)
    (hflash : ¬ (byteOf (flex 0) 0 = 0x30 ∨ byteOf (flex 0) 0 = 0x31)) :
    ∀ j ∈ (readReply flex length b).2.stores, j < length / 4 := by
  have hhead := pull_head flex b
  have hstores : (pull flex 1 0 b).stores = [0] := by rw [pull_stores, hb]; rfl
  have hfirst : ∀ j ∈ [0], j < length / 4 := by
    intro j hj
    rw [mem_singleton] at hj
    omega
  simp only [readReply, hhead, if_neg hflash]
  split
  · rwa [hstores]
  · rename_i hbuf
    split
    · rwa [hstores]
    · rename_i hroom
      rwa [rest_in_buffer hlen hroom (by decide), hstores]

theorem readReply_stores_of_flash {flex : ℕ → U32} {b : ReplyBuffer} (hb : b.stores = [])
    (hlen : length % 4 = 0) (hflash : byteOf (flex 0) 0 = 0x30 ∨ byteOf (flex 0) 0 = 0x31) :
    (∀ j ∈ (readReply flex length b).2.stores, j < length / 4) ↔ 12 ≤ length := by
  have hhead := pull_head flex b
  have hstores : (pull flex 2 1 (pull flex 1 0 b)).stores = [0, 1, 2] := by
    rw [pull_stores, pull_stores, hb]
    rfl
  have hfirst : (∀ j ∈ [0, 1, 2], j < length / 4) ↔ 12 ≤ length := by
    constructor
    · intro h
      have h2 := h 2 (by simp)
      omega
    · intro h j hj
      simp only [mem_cons, not_mem_nil, or_false] at hj
      omega
  simp only [readReply, hhead, if_pos hflash]
  split
  · rw [hstores, hfirst]
  · rename_i hbuf
    split
    · rw [hstores, hfirst]
    · rename_i hroom
      rw [rest_in_buffer hlen hroom (by decide), hstores, hfirst]

/-- Enabled and, unless it is not checked, done in time with a valid status. -/
def HicReply.Completes (r : HicReply) (request : U32) (timeout : ℕ) : Prop :=
  r.enabled = true ∧ (byteOf request 0 = applyUpdateCmd ∨
    (timeout = 0 ∨ pollUntil (fun k => !r.pending k) timeout 0 = true) ∧ r.statusValid = true)

theorem hicUnlocked_eq_success_iff {r : HicReply} {request : U32} {timeout : ℕ} (hpos : 0 < length)
    (hmax : length ≤ hiMaxBlockByteLength) (hlen : length % 4 = 0) :
    hicUnlocked r request length timeout = success ↔ r.Completes request timeout := by
  have herr : errHostInterfaceCommand ≠ success := by decide
  rw [hicUnlocked, if_neg (by omega), HicReply.Completes]
  by_cases hen : r.enabled = true
  · rw [if_neg (by simp [hen]), if_neg (not_not.mpr hlen)]
    by_cases happly : byteOf request 0 = applyUpdateCmd
    · dsimp only
      rw [if_pos happly]
      exact ⟨fun _ => ⟨hen, .inl happly⟩, fun _ => rfl⟩
    · simp only [hen, happly, if_false, false_or, true_and]
      split
      case isTrue hfail =>
        refine ⟨fun h => absurd h herr, fun h => ?_⟩
        simp only [Bool.not_eq_true', ← Bool.not_eq_true] at hfail
        tauto
      case isFalse hfail =>
        simp only [Bool.not_eq_true', ← Bool.not_eq_true] at hfail
        exact ⟨fun _ => by tauto, fun _ => rfl⟩
  · rw [if_pos (by simp [hen])]
    exact ⟨fun h => absurd h herr, fun h => absurd h.1 hen⟩

/-- The reply is within the buffer, and the semaphore released if acquired. -/
def ReplyInBuffer (res : HostResult) (length : ℕ) (sync : ℤ) : Prop :=
  (∀ j ∈ res.buffer.stores, j < length / 4) ∧
    res.events = if sync = success then [.acquired gssrSwMngSm, .released gssrSwMngSm] else []

/-- **All replies stay in the buffer** but those that look like one to a read of the flash, in less
than three dwords. -/
theorem reply_in_buffer_iff (sync : ℤ) (r : HicReply) (words : ℕ → U32) (length timeout : ℕ)
    (returnData : Bool) (hpos : 0 < length) (hmax : length ≤ hiMaxBlockByteLength)
    (hlen : length % 4 = 0) :
    ReplyInBuffer (hostInterfaceCommand sync r words length timeout returnData) length sync ↔
      (returnData = true → sync = success → r.Completes (words 0) timeout →
        (byteOf (r.flex 0) 0 = 0x30 ∨ byteOf (r.flex 0) 0 = 0x31) → 12 ≤ length) := by
  rw [hostInterfaceCommand, if_neg (by omega)]
  by_cases hsync : sync = success
  · rw [if_neg (not_not.mpr hsync)]
    by_cases hok : r.Completes (words 0) timeout
    · rw [if_neg (not_not.mpr ((hicUnlocked_eq_success_iff hpos hmax hlen).mpr hok))]
      cases returnData with
      | false => simp [ReplyInBuffer, hsync]
      | true =>
        by_cases hflash : byteOf (r.flex 0) 0 = 0x30 ∨ byteOf (r.flex 0) 0 = 0x31
        · have hiff := readReply_stores_of_flash (b := ⟨words, []⟩) rfl hlen hflash
          rw [ReplyInBuffer, if_pos hsync]
          exact ⟨fun h _ _ _ _ => hiff.mp h.1, fun h => ⟨hiff.mpr (h rfl hsync hok hflash), rfl⟩⟩
        · have hin := readReply_stores_of_not_flash (b := ⟨words, []⟩) rfl hlen hpos hflash
          rw [ReplyInBuffer, if_pos hsync]
          exact ⟨fun _ _ _ _ h => absurd h hflash, fun _ => ⟨hin, rfl⟩⟩
    · rw [if_pos (mt (hicUnlocked_eq_success_iff hpos hmax hlen).mp hok)]
      simp [ReplyInBuffer, hsync, hok]
  · rw [if_pos hsync]
    simp [ReplyInBuffer, hsync]

def promptReply : HicReply where
  enabled := true
  pending _ := false
  statusValid := true
  flex := flex

end

theorem reply_in_buffer_three_dwords :
    ReplyInBuffer (hostInterfaceCommand success (promptReply fun _ => 0x31)
      (fun _ => 0) 12 500 true)
      12 success :=
  (reply_in_buffer_iff success (promptReply fun _ => 0x31) (fun _ => 0) 12 500 true (by decide)
    (by decide) (by decide)).mpr fun _ _ _ _ => le_rfl

/-- A buffer of one dword is stored into at the indices 1 and 2 also. -/
theorem reply_beyond_buffer :
    (hostInterfaceCommand success (promptReply fun _ => 0x31)
      (fun _ => 0) 4 500 true).buffer.stores =
        [0, 1, 2] ∧
      ¬ ReplyInBuffer
        (hostInterfaceCommand success (promptReply fun _ => 0x31)
          (fun _ => 0) 4 500 true) 4 success :=
  ⟨by decide, fun h => absurd (h.1 2 (by decide)) (by decide)⟩

end Ixgbe
