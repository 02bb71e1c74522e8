import Mathlib.Tactic.IntervalCases
import Ixgbe.Hw.HostInterface

/-! # The shadow RAM of the X550 behind the host interface

A command reads up to 512 words, two in a dword, or writes one. -/

namespace Ixgbe

open Function BitVec Nat

def dword (b₀ b₁ b₂ b₃ : U8) : U32 :=
  BitVec.ofNat 32 (b₀.toNat + b₁.toNat * 2 ^ 8 + b₂.toNat * 2 ^ 16 + b₃.toNat * 2 ^ 24)

def leWord (lo hi : U8) : U16 := BitVec.ofNat 16 (lo.toNat + hi.toNat * 2 ^ 8)

theorem toNat_byteOf (x : U32) (i : ℕ) : (byteOf x i).toNat = x.toNat / 2 ^ (8 * i) % 256 := by
  rw [byteOf, toNat_setWidth, toNat_ushiftRight, shiftRight_eq_div_pow]

theorem byteOf_dword (b0 b1 b2 b3 : U8) :
    byteOf (dword b0 b1 b2 b3) 0 = b0 ∧ byteOf (dword b0 b1 b2 b3) 1 = b1 ∧
      byteOf (dword b0 b1 b2 b3) 2 = b2 ∧ byteOf (dword b0 b1 b2 b3) 3 = b3 := by
  simp only [← toNat_inj, toNat_byteOf, dword, toNat_ofNat]
  omega

theorem words_of_dword (x : U32) :
    x.setWidth 16 = leWord (byteOf x 0) (byteOf x 1) ∧
      (x >>> 16).setWidth 16 = leWord (byteOf x 2) (byteOf x 3) := by
  simp only [← toNat_inj, leWord, toNat_byteOf, toNat_ofNat, toNat_setWidth,
    toNat_ushiftRight, shiftRight_eq_div_pow]
  omega

theorem leWord_byteOf (d : U16) :
    leWord (byteOf (d.setWidth 32) 0) (byteOf (d.setWidth 32) 1) = d := by
  simp only [← toNat_inj, leWord, toNat_byteOf, toNat_ofNat, toNat_setWidth]
  omega

def fwReadShadowRamCmd : U8 := 0x31

def fwWriteShadowRamCmd : U8 := 0x33

def fwNvmDataOffset : ℕ := 3

def hiCommandTimeout : ℕ := 500

/-- As dwords; address and length have the most significant byte first. -/
def shadowRequest (cmd len : U8) (address : U32) (length data : U16) : ℕ → U32
  | 0 => dword cmd 0 len 0xFF
  | 1 => dword (byteOf address 3) (byteOf address 2) (byteOf address 1) (byteOf address 0)
  | 2 => dword (byteOf (length.setWidth 32) 1) (byteOf (length.setWidth 32) 0) 0 0
  | 3 => dword (byteOf (data.setWidth 32) 0) (byteOf (data.setWidth 32) 1) 0 0
  | _ => 0

def requestAddress (request : ℕ → U32) : ℕ :=
  (byteOf (request 1) 0).toNat * 2 ^ 24 + (byteOf (request 1) 1).toNat * 2 ^ 16 +
    (byteOf (request 1) 2).toNat * 2 ^ 8 + (byteOf (request 1) 3).toNat

def requestLength (request : ℕ → U32) : ℕ :=
  (byteOf (request 2) 0).toNat * 2 ^ 8 + (byteOf (request 2) 1).toNat

def requestData (request : ℕ → U32) : U16 := leWord (byteOf (request 3) 0) (byteOf (request 3) 1)

theorem shadowRequest_spec (cmd len : U8) (address : U32) (length data : U16) :
    let request := shadowRequest cmd len address length data
    byteOf (request 0) 0 = cmd ∧ requestAddress request = address.toNat ∧
      requestLength request = length.toNat ∧ requestData request = data := by
  simp only [shadowRequest, requestAddress, requestLength, requestData, byteOf_dword, leWord_byteOf,
    toNat_byteOf, toNat_setWidth, true_and, and_true]
  omega

/-- **The firmware.** Whether a word is stored by a write that fails is open. -/
structure ShadowFirmware where
  sync : ℕ → ℤ
  reply : ℕ → (ℕ → U32) → (ℕ → U8) → HicReply
  stores : ℕ → Bool
  reads : ∀ k request ram, byteOf (request 0) 0 = fwReadShadowRamCmd →
    ∀ i < requestLength request, byteOf ((reply k request ram).flex (fwNvmDataOffset + i / 4))
      (i % 4) =
      ram (requestAddress request + i)

def wordAt (ram : ℕ → U8) (w : ℕ) : U16 := leWord (ram (2 * w)) (ram (2 * w + 1))

def storeWord (ram : ℕ → U8) (a : ℕ) (d : U16) : ℕ → U8 :=
  update (update ram a (byteOf (d.setWidth 32) 0)) (a + 1)
    (byteOf (d.setWidth 32) 1)

def ShadowFirmware.write (fw : ShadowFirmware) (k : ℕ) (request : ℕ → U32) (ram : ℕ → U8) :
    ℕ → U8 :=
  let r := fw.reply k request ram
  if r.enabled ∧ (byteOf (r.flex 0) 2 = 1 ∨ fw.stores k) then
    storeWord ram (requestAddress request) (requestData request)
  else ram

theorem wordAt_storeWord (ram : ℕ → U8) (v w : ℕ) (d : U16) :
    wordAt (storeWord ram (v * 2) d) w = if w = v then d else wordAt ram w := by
  by_cases h : w = v
  · rw [if_pos h, wordAt, storeWord, h, mul_comm v, update_self,
      update_of_ne (by omega), update_self, leWord_byteOf]
  · rw [if_neg h, wordAt, storeWord, update_of_ne (by omega),
      update_of_ne (by omega), update_of_ne (by omega), update_of_ne (by omega), wordAt]

def gssrEepSm : U32 := 0x0001

/-- `i` counts the words of the reply, `cur` is the place in the buffer. -/
def unpackWords (flex : ℕ → U32) (n : ℕ) : ℕ → ℕ → ℕ → (ℕ → U16) → (ℕ → U16) × ℕ
  | 0, _, cur, data => (data, cur)
  | fuel + 1, i, cur, data =>
    if i < n then
      let value := flex (fwNvmDataOffset + i / 2)
      let data := update data cur (value.setWidth 16)
      if i + 1 < n then
        unpackWords flex n fuel (i + 2) (cur + 2)
          (update data (cur + 1) ((value >>> 16).setWidth 16))
      else unpackWords flex n fuel (i + 2) (cur + 1) data
    else (data, cur)

/-- With `k` commands behind it. -/
def readCommands (fw : ShadowFirmware) (ram : ℕ → U8) (offset : ℕ) :
    ℕ → ℕ → ℕ → ℕ → (ℕ → U16) → ℤ × ℕ × (ℕ → U16)
  | 0, k, _, _, data => (success, k, data)
  | fuel + 1, k, words, cur, data =>
    if words = 0 then (success, k, data)
    else
      let n := if words > 512 then 512 else words
      let request := shadowRequest fwReadShadowRamCmd 6 (BitVec.ofNat 32 ((offset + cur) * 2))
        (BitVec.ofNat 16 (n * 2)) 0
      let r := fw.reply k request ram
      let status := hicUnlocked r (request 0) 16 hiCommandTimeout
      if status ≠ success then (status, k + 1, data)
      else
        let u := unpackWords r.flex n n 0 cur data
        readCommands fw ram offset fuel (k + 1) (words - n) u.2 u.1

/-- Status, number of commands, words and what happened to the semaphores. -/
structure HostifRead where
  status : ℤ
  commands : ℕ
  data : ℕ → U16
  events : List SemEvent

def readEeHostifBufferX550 (fw : ShadowFirmware) (offset words : U16) (data : ℕ → U16)
    (ram : ℕ → U8) : HostifRead :=
  let mask := gssrSwMngSm ||| gssrEepSm
  if fw.sync 0 ≠ success then ⟨fw.sync 0, 0, data, []⟩
  else
    let r := readCommands fw ram offset.toNat words.toNat 0 words.toNat 0 data
    ⟨r.1, r.2.1, r.2.2, [.acquired mask, .released mask]⟩

/-- `ixgbe_write_ee_hostif_data_X550`, as command `k`. -/
def writeEeHostifDataX550 (fw : ShadowFirmware) (k : ℕ) (offset data : U16) (ram : ℕ → U8) :
    ℤ × (ℕ → U8) × List SemEvent :=
  let request := shadowRequest fwWriteShadowRamCmd 0xA (BitVec.ofNat 32 (offset.toNat * 2)) 2 data
  let sync := fw.sync (k + 1)
  let res := hostInterfaceCommand sync (fw.reply k request ram) request 16 hiCommandTimeout true
  let ram' := if sync = success then fw.write k request ram else ram
  if res.status ≠ success then (res.status, ram', res.events)
  else if byteOf (res.buffer.words 0) 2 ≠ 1 then (errHostInterfaceCommand, ram', res.events)
  else (success, ram', res.events)

def writeWords (fw : ShadowFirmware) (offset : ℕ) (data : ℕ → U16) :
    ℕ → ℕ → (ℕ → U8) → ℤ × (ℕ → U8) × List SemEvent
  | 0, _, ram => (success, ram, [])
  | n + 1, i, ram =>
    let r := writeEeHostifDataX550 fw i (BitVec.ofNat 16 (offset + i)) (data i) ram
    if r.1 ≠ success then r
    else
      let rest := writeWords fw offset data n (i + 1) r.2.1
      (rest.1, rest.2.1, r.2.2 ++ rest.2.2)

def writeEeHostifBufferX550 (fw : ShadowFirmware) (offset words : U16) (data : ℕ → U16)
    (ram : ℕ → U8) : ℤ × (ℕ → U8) × List SemEvent :=
  if fw.sync 0 ≠ success then (fw.sync 0, ram, [])
  else
    let r := writeWords fw offset.toNat data words.toNat 0 ram
    (r.1, r.2.1, .acquired gssrEepSm :: r.2.2 ++ [.released gssrEepSm])

def flexWord (flex : ℕ → U32) (i : ℕ) : U16 :=
  let value := flex (fwNvmDataOffset + i / 2)
  if i % 2 = 0 then value.setWidth 16 else (value >>> 16).setWidth 16

theorem unpackWords_spec (flex : ℕ → U32) (n : ℕ) {fuel i cur : ℕ} (data : ℕ → U16)
    (hfuel : n - i ≤ fuel) (hi : i % 2 = 0) :
    (unpackWords flex n fuel i cur data).2 = cur + (n - i) ∧
      ∀ j, (unpackWords flex n fuel i cur data).1 j =
        if cur ≤ j ∧ j < cur + (n - i) then flexWord flex (i + (j - cur)) else data j := by
  induction fuel generalizing i cur data with
  | zero =>
    refine ⟨by rw [unpackWords]; omega, fun j => ?_⟩
    rw [unpackWords, if_neg (by omega)]
  | succ fuel ih =>
    rw [unpackWords]
    by_cases hlt : i < n
    · have hlo : (flex (fwNvmDataOffset + i / 2)).setWidth 16 = flexWord flex i := by
        rw [flexWord, if_pos hi]
      have hhi : (flex (fwNvmDataOffset + i / 2) >>> 16).setWidth 16 = flexWord flex (i + 1) := by
        rw [flexWord, if_neg (by omega), show (i + 1) / 2 = i / 2 by omega]
      simp only [if_pos hlt, hlo, hhi]
      by_cases hlt' : i + 1 < n
      · obtain ⟨hcur, hdata⟩ := @ih (i + 2) (cur + 2) (update
          (update data cur (flexWord flex i)) (cur + 1) (flexWord flex (i + 1)))
          (by omega) (by omega)
        rw [if_pos hlt']
        refine ⟨by omega, fun j => ?_⟩
        grind [update_apply]
      · obtain ⟨hcur, hdata⟩ := @ih (i + 2) (cur + 1)
          (update data cur (flexWord flex i)) (by omega) (by omega)
        rw [if_neg hlt']
        refine ⟨by omega, fun j => ?_⟩
        rw [hdata]
        grind [update_apply]
    · rw [if_neg hlt]
      exact ⟨by omega, fun j => by rw [if_neg (by omega)]⟩

section

variable (fw : ShadowFirmware)

theorem flexWord_reply (k : ℕ) (ram : ℕ → U8) {w n i : ℕ} (hw : w < 2 ^ 31)
    (hn : n ≤ 512) (hi : i < n) :
    let request := shadowRequest fwReadShadowRamCmd 6 (BitVec.ofNat 32 (w * 2))
      (BitVec.ofNat 16 (n * 2)) 0
    flexWord (fw.reply k request ram).flex i = wordAt ram (w + i) := by
  intro request
  obtain ⟨hcmd, haddr, hlen, -⟩ : byteOf (request 0) 0 = _ ∧ requestAddress request = _ ∧
    requestLength request = _ ∧ _ := shadowRequest_spec ..
  rw [toNat_ofNat, mod_eq_of_lt (by omega)] at haddr hlen
  have hlo := fw.reads k request ram hcmd (2 * i) (by omega)
  have hhi := fw.reads k request ram hcmd (2 * i + 1) (by omega)
  rw [haddr, show 2 * i / 4 = i / 2 by omega, show w * 2 + 2 * i = 2 * (w + i) by omega] at hlo
  rw [haddr, show (2 * i + 1) / 4 = i / 2 by omega,
    show w * 2 + (2 * i + 1) = 2 * (w + i) + 1 by omega] at hhi
  rw [flexWord, wordAt, ← hlo, ← hhi]
  by_cases heven : i % 2 = 0
  · rw [if_pos heven, show 2 * i % 4 = 0 by omega, show (2 * i + 1) % 4 = 1 by omega]
    exact (words_of_dword _).1
  · rw [if_neg heven, show 2 * i % 4 = 2 by omega, show (2 * i + 1) % 4 = 3 by omega]
    exact (words_of_dword _).2

theorem readCommands_spec (ram : ℕ → U8) (offset : ℕ)
    {fuel k words cur : ℕ} (data : ℕ → U16) (hfuel : words ≤ fuel)
    (hfit : offset + cur + words < 2 ^ 31) :
    let r := readCommands fw ram offset fuel k words cur data
    r.1 = success → r.2.1 = k + (words + 511) / 512 ∧
      ∀ j, r.2.2 j = if cur ≤ j ∧ j < cur + words then wordAt ram (offset + j) else data j := by
  induction fuel generalizing k words cur data with
  | zero =>
    obtain rfl : words = 0 := le_zero.mp hfuel
    exact fun _ => ⟨rfl, fun j => by rw [if_neg (by omega)]; rfl⟩
  | succ fuel ih =>
    rw [readCommands]
    by_cases hzero : words = 0
    · subst hzero
      rw [if_pos rfl]
      exact fun _ => ⟨rfl, fun j => by rw [if_neg (by omega)]⟩
    · rw [if_neg hzero]
      generalize hn : (if words > 512 then 512 else words) = n
      have hn' : 0 < n ∧ n ≤ 512 ∧ n ≤ words ∧ (n = 512 ∨ n = words) := by
        split at hn <;> omega
      have hword := fun i => flexWord_reply fw k ram (w := offset + cur) (n := n) (i := i)
          (by omega)
        (by omega)
      dsimp only at hword ⊢
      generalize fw.reply k _ ram = r at hword ⊢
      split
      · exact fun h => absurd h ‹_›
      · intro hok
        obtain ⟨hcur, hdata⟩ := @unpackWords_spec r.flex n n 0 cur data (le_refl n) rfl
        obtain ⟨hk, hrest⟩ := @ih (k + 1) (words - n) _ _ (by omega) (by omega) hok
        refine ⟨by omega, fun j => ?_⟩
        grind

/-- Every semaphore that is acquired is released once, the last one first. -/
inductive Balanced : List SemEvent → Prop
  | nil : Balanced []
  | held (mask : U32) {es rest : List SemEvent} : Balanced es → Balanced rest →
    Balanced (.acquired mask :: es ++ .released mask :: rest)

theorem Balanced.append {es es' : List SemEvent} (h : Balanced es) (h' : Balanced es') :
    Balanced (es ++ es') := by
  induction h with
  | nil => exact h'
  | held mask hes _ _ ih =>
    rw [List.append_assoc, List.cons_append]
    exact .held mask hes ih

theorem hostInterfaceCommand_spec (sync : ℤ) (r : HicReply) (words : ℕ → U32) :
    let res := hostInterfaceCommand sync r words 16 hiCommandTimeout true
    Balanced res.events ∧ (res.status = success → sync = success ∧ r.enabled = true ∧
      res.buffer.words 0 = r.flex 0) := by
  have hheld : Balanced [.acquired gssrSwMngSm, .released gssrSwMngSm] := .held _ .nil .nil
  rw [hostInterfaceCommand, if_neg (by decide)]
  by_cases hsync : sync = success
  · rw [if_neg (not_not.mpr hsync)]
    by_cases hok : hicUnlocked r (words 0) 16 hiCommandTimeout = success
    · have hdone := (hicUnlocked_eq_success_iff (by decide) (by decide) (by decide)).mp hok
      simp only [hok, ne_eq, not_true_eq_false, if_false, Bool.not_true, Bool.false_eq_true]
      exact ⟨hheld, fun _ => ⟨hsync, hdone.1, readReply_words_zero ..⟩⟩
    · dsimp only
      rw [if_pos hok]
      exact ⟨hheld, fun h => absurd h hok⟩
  · rw [if_pos hsync]
    exact ⟨.nil, fun h => absurd h hsync⟩

theorem writeEeHostifDataX550_spec (k : ℕ) (offset data : U16) (ram : ℕ → U8) :
    let r := writeEeHostifDataX550 fw k offset data ram
    Balanced r.2.2 ∧ (r.1 = success → r.2.1 = storeWord ram (offset.toNat * 2) data) := by
  simp only [writeEeHostifDataX550]
  obtain ⟨-, haddr, -, hdata⟩ := shadowRequest_spec fwWriteShadowRamCmd 0xA
    (BitVec.ofNat 32 (offset.toNat * 2)) 2 data
  rw [toNat_ofNat, mod_eq_of_lt (by omega)] at haddr
  generalize shadowRequest fwWriteShadowRamCmd 0xA _ 2 data = request at haddr hdata ⊢
  obtain ⟨hevents, hdone⟩ := hostInterfaceCommand_spec (fw.sync (k + 1))
      (fw.reply k request ram) request
  by_cases hok : (hostInterfaceCommand (fw.sync (k + 1)) (fw.reply k request ram) request 16
      hiCommandTimeout true).status = success
  · obtain ⟨hsync, hen, hword⟩ := hdone hok
    rw [if_neg (not_not.mpr hok), hword]
    by_cases hreport : byteOf ((fw.reply k request ram).flex 0) 2 = 1
    · rw [if_neg (not_not.mpr hreport), if_pos hsync, ShadowFirmware.write,
        if_pos ⟨hen, .inl hreport⟩, haddr, hdata]
      exact ⟨hevents, fun _ => rfl⟩
    · rw [if_pos hreport]
      exact ⟨hevents, fun h => absurd h (show errHostInterfaceCommand ≠ success by decide)⟩
  · rw [if_pos hok]
    exact ⟨hevents, fun h => absurd h hok⟩

theorem writeWords_spec (offset : ℕ) (data : ℕ → U16) {n i : ℕ} (ram : ℕ → U8)
    (hfit : offset + i + n ≤ 2 ^ 16) :
    let r := writeWords fw offset data n i ram
    Balanced r.2.2 ∧ (r.1 = success → ∀ w, wordAt r.2.1 w =
      if offset + i ≤ w ∧ w < offset + i + n then data (w - offset) else wordAt ram w) := by
  induction n generalizing i ram with
  | zero => exact ⟨.nil, fun _ w => by rw [if_neg (by omega)]; rfl⟩
  | succ n ih =>
    obtain ⟨hevents, hstored⟩ := writeEeHostifDataX550_spec fw i (BitVec.ofNat 16 (offset + i))
      (data i) ram
    rw [writeWords]
    generalize writeEeHostifDataX550 fw i _ (data i) ram = r at hevents hstored ⊢
    by_cases hok : r.1 = success
    · obtain ⟨hevents', hrest⟩ := ih (i := i + 1) r.2.1 (by omega)
      rw [if_neg (not_not.mpr hok)]
      refine ⟨hevents.append hevents', fun hok' w => ?_⟩
      rw [hrest hok', hstored hok, wordAt_storeWord]
      grind
    · rw [if_pos hok]
      exact ⟨hevents, fun h => absurd h hok⟩

end

/-- **Reads and writes of the shadow RAM**: a read returns its words, after a write what was
written, and the semaphores are released. -/
theorem hostif_round_trip (fw fw' fw'' : ShadowFirmware) (offset words : U16) (data d : ℕ → U16)
    (ram : ℕ → U8) (hfit : offset.toNat + words.toNat ≤ 65536) :
    let rd := readEeHostifBufferX550 fw offset words data ram
    let wr := writeEeHostifBufferX550 fw' offset words d ram
    let back := readEeHostifBufferX550 fw'' offset words data wr.2.1
    (rd.status = success → rd.commands = (words.toNat + 511) / 512 ∧
      ∀ i < words.toNat, rd.data i = wordAt ram (offset.toNat + i)) ∧
    (wr.1 = success → back.status = success → ∀ i < words.toNat, back.data i = d i) ∧
    Balanced rd.events ∧ Balanced wr.2.2 := by
  have hread : ∀ (fw : ShadowFirmware) (ram : ℕ → U8),
      let rd := readEeHostifBufferX550 fw offset words data ram
      (rd.status = success → rd.commands = (words.toNat + 511) / 512 ∧
        ∀ i < words.toNat, rd.data i = wordAt ram (offset.toNat + i)) ∧ Balanced rd.events := by
    intro fw ram
    rw [readEeHostifBufferX550]
    by_cases hsync : fw.sync 0 = success
    · rw [if_neg (not_not.mpr hsync)]
      refine ⟨fun hok => ?_, .held _ .nil .nil⟩
      obtain ⟨hk, hdata⟩ := readCommands_spec fw ram offset.toNat data le_rfl (by omega) hok
      refine ⟨hk.trans (zero_add _), fun i hi => (hdata i).trans (if_pos ?_)⟩
      omega
    · rw [if_pos hsync]
      exact ⟨fun h => absurd h hsync, .nil⟩
  have hwrite : Balanced (writeEeHostifBufferX550 fw' offset words d ram).2.2 ∧
      ((writeEeHostifBufferX550 fw' offset words d ram).1 = success → ∀ i < words.toNat,
        wordAt (writeEeHostifBufferX550 fw' offset words d ram).2.1 (offset.toNat + i) = d i) := by
    rw [writeEeHostifBufferX550]
    by_cases hsync : fw'.sync 0 = success
    · obtain ⟨hevents, hstored⟩ := writeWords_spec fw' offset.toNat d (n := words.toNat)
          (i := 0) ram
        (by omega)
      rw [if_neg (not_not.mpr hsync)]
      refine ⟨.held _ hevents .nil, fun hok i hi => ?_⟩
      rw [hstored hok, if_pos (by omega), Nat.add_sub_cancel_left]
    · rw [if_pos hsync]
      exact ⟨.nil, fun h => absurd h hsync⟩
  refine ⟨(hread fw ram).1, fun hwok hok i hi => ?_, (hread fw ram).2, hwrite.1⟩
  rw [((hread fw'' _).1 hok).2 i hi, hwrite.2 hwok i hi]

def promptFirmware : ShadowFirmware where
  sync _ := success
  reply _ request ram := promptReply fun j =>
    let a := requestAddress request + 4 * (j - fwNvmDataOffset)
    if j < fwNvmDataOffset then 0x010000
    else dword (ram a) (ram (a + 1)) (ram (a + 2)) (ram (a + 3))
  stores _ := true
  reads k request ram _ i _ := by
    have hlt : i % 4 < 4 := mod_lt _ (by decide)
    have hi : i = 4 * (i / 4) + i % 4 := by omega
    simp only [promptReply, if_neg (show ¬ fwNvmDataOffset + i / 4 < fwNvmDataOffset by omega),
      Nat.add_sub_cancel_left]
    conv_rhs => rw [hi, ← add_assoc]
    interval_cases i % 4 <;> simp [byteOf_dword]

theorem hostif_round_trip_three_words :
    (writeEeHostifBufferX550 promptFirmware 1 3 (fun i => BitVec.ofNat 16 i) fun _ => 0).1 =
      success ∧
      ∀ i < 3, (readEeHostifBufferX550 promptFirmware 1 3 (fun _ => 7)
        (writeEeHostifBufferX550 promptFirmware 1 3
          (fun i => BitVec.ofNat 16 i) fun _ => 0).2.1).data i =
          BitVec.ofNat 16 i :=
  ⟨by decide, (hostif_round_trip promptFirmware promptFirmware promptFirmware 1 3 (fun _ => 7)
    (fun i => BitVec.ofNat 16 i) (fun _ => 0) (by decide)).2.1 (by decide) (by decide)⟩

end Ixgbe
