import Ixgbe.Eeprom.ChecksumX540
import Ixgbe.Eeprom.HostifX550

/-! # The checksum of the X550

It is calculated from the shadow RAM, 256 words at a time, or from an image in the caller's buffer.
-/

namespace Ixgbe

open List BitVec Option

def eepromLastWord : ℕ := 0x41

def pcieAnalogPtrX550 : ℕ := 0x02

/-- Three pointers lead to sections of a fixed size. -/
def sectionSizeX550 (i : ℕ) : U16 :=
  if i = 0x06 then 0x24 else if i = 0x07 ∨ i = 0x08 then 0x08 else 0

/-- The checksum so far, the indices read, and the number of device reads. -/
structure SumX550 where
  checksum : U16
  reads : List ℕ
  calls : ℕ

/-- A word of `b` is added; reads of the caller's buffer are noted. -/
def SumX550.add (caller : Bool) (b : ℕ → U16) (s : SumX550) (a : ℕ) : SumX550 :=
  { s with
    checksum := s.checksum + b a
    reads := if caller then s.reads ++ [a] else s.reads }

section

variable (fw : ℕ → ShadowFirmware) (ram : ℕ → U8)

/-- `length` words are left, from word `i` of `buf` on, which starts at `ptr`. -/
def addChunks : ℕ → ℕ → ℕ → U16 → (ℕ → U16) → SumX550 → ℤ × SumX550
  | 0, _, _, _, _, s => (success, s)
  | length + 1, i, bufsz, ptr, buf, s =>
    if i = bufsz then
      let ptr := ptr + BitVec.ofNat 16 bufsz
      let bufsz := if length + 1 < bufsz then length + 1 else bufsz
      let r := readEeHostifBufferX550 (fw s.calls) ptr (BitVec.ofNat 16 bufsz) buf ram
      let s := { s with calls := s.calls + 1 }
      if r.status ≠ success then (r.status, s)
      else addChunks length 1 bufsz ptr r.data (s.add false r.data 0)
    else addChunks length (i + 1) bufsz ptr buf (s.add false buf i)

variable (wordSize : U32) (buffer : Option (ℕ → U16)) (bufferSize : U32)

/-- `ixgbe_checksum_ptr_x550`, with the caller's buffer or without. -/
def checksumPtrX550 (ptr size : U16) (s : SumX550) : ℤ × SumX550 :=
  let invalid (length : U16) : Prop := size = 0 ∧
    (length = 0xFFFF ∨ length = 0 ∨ length.setWidth 32 > wordSize - ptr.setWidth 32)
  let start := if size = 0 then 1 else 0
  match buffer with
  | none =>
    let r := readEeHostifBufferX550 (fw s.calls) ptr 256 (fun _ => 0) ram
    let s := { s with calls := s.calls + 1 }
    if r.status ≠ success then (r.status, s)
    else
      let length := if size = 0 then r.data 0 else size
      if invalid length then (success, s) else addChunks fw ram length.toNat start 256 ptr r.data s
  | some b =>
    if bufferSize < ptr.setWidth 32 then (errParam, s)
    else
      let s := if size = 0 then { s with reads := s.reads ++ [ptr.toNat] } else s
      let length := if size = 0 then b ptr.toNat else size
      if invalid length then (success, s)
      else if BitVec.ofNat 32 (start + length.toNat) > bufferSize then (errParam, s)
      else (success, (range' (ptr.toNat + start) length.toNat).foldl (SumX550.add true b) s)

/-- The sections at the pointers `is`, which are taken from `words`. -/
def addPointersX550 (words : ℕ → U16) : List ℕ → SumX550 → ℤ × SumX550
  | [], s => (success, s)
  | i :: is, s =>
    if i = phyPtr ∨ i = optionRomPtr then addPointersX550 words is s
    else
      let s := if buffer.isSome then { s with reads := s.reads ++ [i] } else s
      let pointer := words i
      if pointer = 0xFFFF ∨ pointer = 0 ∨ pointer.setWidth 32 ≥ wordSize then
        addPointersX550 words is s
      else
        let r := checksumPtrX550 fw ram wordSize buffer bufferSize pointer (sectionSizeX550 i) s
        if r.1 ≠ success then r else addPointersX550 words is r.2

def firstWordsX550 : List ℕ := (range (eepromLastWord + 1)).filter (· ≠ eepromChecksum)

def x550Pointers : List ℕ := range' pcieAnalogPtrX550 (fwPtr - pcieAnalogPtrX550)

/-- The rest of `ixgbe_calc_checksum_X550`, once the first words are there. -/
def calcWordsX550 (words : ℕ → U16) (s : SumX550) : ℤ × SumX550 :=
  let s := firstWordsX550.foldl (SumX550.add buffer.isSome words) s
  let r := addPointersX550 fw ram wordSize buffer bufferSize words x550Pointers s
  if r.1 ≠ success then r else ((eepromSum - r.2.checksum).toNat, r.2)

def calcChecksumX550 : ℤ × SumX550 :=
  match buffer with
  | none =>
    let r := readEeHostifBufferX550 (fw 0) 0 (BitVec.ofNat 16 (eepromLastWord + 1)) (fun _ => 0) ram
    if r.status ≠ success then (r.status, ⟨0, [], 1⟩)
    else calcWordsX550 fw ram wordSize buffer bufferSize r.data ⟨0, [], 1⟩
  | some b =>
    if bufferSize < BitVec.ofNat 32 eepromLastWord then (errParam, ⟨0, [], 0⟩)
    else calcWordsX550 fw ram wordSize buffer bufferSize b ⟨0, [], 0⟩

end

def ptrAddrs (image : ℕ → U16) (n p size : ℕ) : List ℕ :=
  let length := (image p).toNat
  if size ≠ 0 then range' p size
  else if length = 0xFFFF ∨ length = 0 ∨ n - p < length then []
  else range' (p + 1) length

def x550Section (image : ℕ → U16) (n i : ℕ) : List ℕ :=
  let p := (image i).toNat
  if (i = phyPtr ∨ i = optionRomPtr) ∨ p = 0xFFFF ∨ p = 0 ∨ n ≤ p then []
  else ptrAddrs image n p (sectionSizeX550 i).toNat

def x550Addrs (image : ℕ → U16) (n : ℕ) : List ℕ :=
  firstWordsX550 ++ x550Pointers.flatMap (x550Section image n)

/-- The semaphore is granted and every command completes. -/
structure ShadowFirmware.Works (fw : ShadowFirmware) : Prop where
  sync : fw.sync 0 = success
  reply : ∀ k request ram, (fw.reply k request ram).Completes (request 0) hiCommandTimeout

theorem readCommands_works {fw : ShadowFirmware} (hfw : fw.Works) (ram : ℕ → U8) (offset fuel : ℕ)
    {k words cur : ℕ} {data : ℕ → U16} :
    (readCommands fw ram offset fuel k words cur data).1 = success := by
  induction fuel generalizing k words cur data with
  | zero => rfl
  | succ fuel ih =>
    rw [readCommands]
    dsimp only
    rw [(hicUnlocked_eq_success_iff (by decide) (by decide) (by decide)).mpr (hfw.reply ..)]
    split
    · rfl
    · rw [if_neg (not_not.mpr rfl)]
      exact ih

theorem read_works {fw : ShadowFirmware} (hfw : fw.Works) (offset words : U16) (data : ℕ → U16)
    (ram : ℕ → U8) :
    let r := readEeHostifBufferX550 fw offset words data ram
    r.status = success ∧ ∀ j < words.toNat, r.data j = wordAt ram (offset.toNat + j) := by
  have hok : (readCommands fw ram offset.toNat words.toNat 0 words.toNat 0 data).1 = success :=
    readCommands_works hfw ..
  rw [readEeHostifBufferX550, if_neg (not_not.mpr hfw.sync)]
  refine ⟨hok, fun j hj => ?_⟩
  obtain ⟨-, hdata⟩ := readCommands_spec fw ram offset.toNat data le_rfl (by omega) hok
  exact (hdata j).trans (if_pos (by omega))

theorem addChunks_spec {fw : ℕ → ShadowFirmware} (hfw : ∀ n, (fw n).Works) (ram : ℕ → U8)
    {length i bufsz : ℕ} {ptr : U16} {buf : ℕ → U16} (s : SumX550) (hi : i ≤ bufsz)
    (hpos : 0 < bufsz) (hmax : bufsz ≤ 256) (hbuf : ∀ j < bufsz, buf j = wordAt ram (ptr.toNat + j))
    (hfit : ptr.toNat + i + length ≤ 2 ^ 16 ∨ i + length ≤ bufsz) :
    ∃ calls, addChunks fw ram length i bufsz ptr buf s = (success,
      ⟨sumWords (wordAt ram) (range' (ptr.toNat + i) length) s.checksum, s.reads, calls⟩) := by
  induction length generalizing i bufsz ptr buf s with
  | zero => exact ⟨s.calls, rfl⟩
  | succ length ih =>
    rw [addChunks]
    by_cases hend : i = bufsz
    · rw [if_pos hend]
      generalize hn : (if length + 1 < bufsz then length + 1 else bufsz) = n
      have hn' : 0 < n ∧ n ≤ bufsz := by
        split at hn <;> omega
      have hptr : (ptr + BitVec.ofNat 16 bufsz).toNat = ptr.toNat + i := by
        rw [toNat_add, toNat_ofNat]
        omega
      obtain ⟨hok, hdata⟩ := read_works (hfw s.calls) (ptr + BitVec.ofNat 16 bufsz)
          (BitVec.ofNat 16 n)
        buf ram
      rw [toNat_ofNat, Nat.mod_eq_of_lt (by omega)] at hdata
      obtain ⟨calls, hrest⟩ := ih (i := 1) ({ s with calls := s.calls + 1 }.add false
        (readEeHostifBufferX550 (fw s.calls) (ptr + BitVec.ofNat 16 bufsz) (BitVec.ofNat 16 n) buf
          ram).data 0) (by omega) hn'.1 (by omega) hdata (by omega)
      refine ⟨calls, ?_⟩
      rw [if_neg (not_not.mpr hok), hrest, range'_succ, SumX550.add, hdata 0 hn'.1, hptr]
      rfl
    · obtain ⟨calls, hrest⟩ := ih (i := i + 1) (s.add false buf i) (by omega) hpos hmax hbuf
          (by omega)
      refine ⟨calls, ?_⟩
      rw [if_neg hend, hrest, range'_succ, SumX550.add, hbuf i (by omega)]
      rfl

/-- The caller's buffer was read below `n` only. -/
def SumX550.ReadsBelow (s : SumX550) (n : ℕ) : Prop := ∀ a ∈ s.reads, a < n

theorem SumX550.foldl_add (caller : Bool) (b : ℕ → U16) (as : List ℕ) (s : SumX550) :
    as.foldl (SumX550.add caller b) s = ⟨sumWords b as s.checksum,
      if caller then s.reads ++ as else s.reads, s.calls⟩ := by
  induction as generalizing s with
  | nil => cases caller <;> simp [sumWords]
  | cons a as ih =>
    rw [foldl_cons, ih]
    cases caller <;> simp [SumX550.add, sumWords]

theorem sumWords_congr {f g : ℕ → U16} {as : List ℕ} (h : ∀ a ∈ as, f a = g a) (s : U16) :
    sumWords f as s = sumWords g as s :=
  foldl_ext _ _ s fun s' a ha => by rw [h a ha]

def SumX550.Adds (s s' : SumX550) (image : ℕ → U16) (caller : Bool) (n : ℕ) (as : List ℕ) : Prop :=
  s'.checksum = sumWords image as s.checksum ∧
    (s'.ReadsBelow n ↔ s.ReadsBelow n ∧ (caller = true → ∀ a ∈ as, a < n))

theorem SumX550.Adds.append {s s1 s2 : SumX550} {image : ℕ → U16} {caller : Bool} {n : ℕ}
    {as bs : List ℕ} (h : s.Adds s1 image caller n as) (h' : s1.Adds s2 image caller n bs) :
    s.Adds s2 image caller n (as ++ bs) := by
  refine ⟨by rw [h'.1, h.1, sumWords, sumWords, sumWords, foldl_append], ?_⟩
  rw [h'.2, h.2, forall_mem_append]
  tauto

theorem ptrAddrs_eq (image : ℕ → U16) {w : U32} {ptr : U16} (hptr : ptr.toNat < w.toNat)
    (size : U16) :
    ptrAddrs image w.toNat ptr.toNat size.toNat =
      let length := if size = 0 then image ptr.toNat else size
      if size = 0 ∧ (length = 0xFFFF ∨ length = 0 ∨ length.setWidth 32 > w - ptr.setWidth 32)
      then []
      else range' (ptr.toNat + if size = 0 then 1 else 0) length.toNat := by
  by_cases hz : size = 0
  · subst hz
    simp only [ptrAddrs, if_true, true_and, length_invalid_iff _ hptr]
    rfl
  · have hz' : size.toNat ≠ 0 := fun h => hz (eq_of_toNat_eq h)
    simp only [ptrAddrs, if_pos hz', hz, if_false, false_and, Nat.add_zero]

theorem sectionEnd_le {w : U32} {ptr size : U16} (hptr : ptr.toNat < w.toNat)
    (hsz : size.toNat ≤ 0x24)
    {first length : U16} (hlength : (if size = 0 then first else size) = length)
    (h : ¬ (size = 0 ∧ (length = 0xFFFF ∨ length = 0 ∨
      length.setWidth 32 > w - ptr.setWidth 32))) :
    size = 0 ∧ ptr.toNat + length.toNat ≤ w.toNat ∨ size ≠ 0 ∧ length.toNat ≤ 0x24 := by
  by_cases hz : size = 0
  · have hvalid := not_and.mp h hz
    rw [length_invalid_iff _ hptr] at hvalid
    exact .inl ⟨hz, by omega⟩
  · rw [if_neg hz] at hlength
    exact .inr ⟨hz, hlength ▸ hsz⟩

section

variable {fw : ℕ → ShadowFirmware} (hfw : ∀ n, (fw n).Works) (ram : ℕ → U8) {w : U32}
  (hlo : 0x42 ≤ w.toNat) (hhi : w.toNat < 65535) (buffer : Option (ℕ → U16)) {bufferSize : U32}
  (hsize : buffer.isSome = true → bufferSize = w)

include hfw hlo hhi hsize

theorem checksumPtrX550_spec {ptr size : U16} (hpos : 0 < ptr.toNat) (hptr : ptr.toNat < w.toNat)
    (hsz : size.toNat ≤ 0x24) (s : SumX550) :
    ∃ s', checksumPtrX550 fw ram w buffer bufferSize ptr size s = (success, s') ∧
      s.Adds s' (buffer.getD (wordAt ram)) buffer.isSome w.toNat
        (ptrAddrs (buffer.getD (wordAt ram)) w.toNat ptr.toNat size.toNat) := by
  have hval : (ptr.setWidth 32).toNat = ptr.toNat := toNat_setWidth_of_le (by decide)
  rw [ptrAddrs_eq _ hptr]
  cases buffer with
  | none =>
    obtain ⟨hok, hdata⟩ := read_works (hfw s.calls) ptr 256 (fun _ => 0) ram
    have hfirst := hdata 0 (by decide)
    simp only [checksumPtrX550, hok, ne_eq, not_true_eq_false, if_false, getD_none,
      isSome_none, hfirst]
    generalize hlength : (if size = 0 then wordAt ram ptr.toNat else size) = length
    split
    · exact ⟨_, rfl, rfl, by simp [SumX550.ReadsBelow]⟩
    · rename_i hvalid
      have hend := sectionEnd_le hptr hsz hlength hvalid
      obtain ⟨calls, hsum⟩ := @addChunks_spec fw hfw ram length.toNat
          (if size = 0 then 1 else 0) 256
        ptr _ { s with calls := s.calls + 1 } (by split <;> decide) (by decide) le_rfl hdata
        (by split <;> omega)
      exact ⟨_, hsum, rfl, by simp [SumX550.ReadsBelow]⟩
  | some b =>
    obtain rfl := hsize rfl
    have hcheck : ¬ bufferSize < ptr.setWidth 32 := by
      rw [lt_def, hval]
      omega
    simp only [checksumPtrX550, if_neg hcheck, getD_some, isSome_some]
    generalize hlength : (if size = 0 then b ptr.toNat else size) = length
    -- the word with the length is in the buffer
    have hreads : (if size = 0 then { s with reads := s.reads ++ [ptr.toNat] } else s).ReadsBelow
        bufferSize.toNat ↔ s.ReadsBelow bufferSize.toNat := by
      split
      · simp [SumX550.ReadsBelow, mem_append, or_imp, forall_and, hptr]
      · rfl
    have hsum : (if size = 0 then { s with reads := s.reads ++ [ptr.toNat] } else s).checksum =
        s.checksum := by
      split <;> rfl
    generalize (if size = 0 then { s with reads := s.reads ++ [ptr.toNat] } else s) = s1
      at hreads hsum ⊢
    split
    · exact ⟨s1, rfl, hsum, by simp [hreads]⟩
    · rename_i hvalid
      have hend := sectionEnd_le hptr hsz hlength hvalid
      have hroom : ¬ BitVec.ofNat 32 ((if size = 0 then 1 else 0) + length.toNat) > bufferSize := by
        rw [gt_iff_lt, lt_def, toNat_ofNat]
        split <;> omega
      rw [if_neg hroom, SumX550.foldl_add, hsum]
      refine ⟨_, rfl, rfl, ?_⟩
      rw [← hreads]
      simp [SumX550.ReadsBelow, mem_append, or_imp, forall_and]

theorem addPointersX550_spec {words : ℕ → U16} {is : List ℕ} (his : ∀ i ∈ is, i < 0x42 ∧
    words i = buffer.getD (wordAt ram) i) (s : SumX550) :
    ∃ s', addPointersX550 fw ram w buffer bufferSize words is s = (success, s') ∧
      s.Adds s' (buffer.getD (wordAt ram)) buffer.isSome w.toNat
        (is.flatMap (x550Section (buffer.getD (wordAt ram)) w.toNat)) := by
  induction is generalizing s with
  | nil => exact ⟨s, rfl, rfl, by simp⟩
  | cons i is ih =>
    obtain ⟨hi, hword⟩ := his i mem_cons_self
    have ih := ih fun j hj => his j (mem_cons_of_mem i hj)
    rw [addPointersX550, flatMap_cons, x550Section]
    by_cases hskip : i = phyPtr ∨ i = optionRomPtr
    · rw [if_pos hskip]
      simpa only [if_pos (Or.inl hskip), nil_append] using ih s
    · -- the pointer itself is in the buffer
      have hreads : (if buffer.isSome then { s with reads := s.reads ++ [i] } else s).ReadsBelow
          w.toNat ↔ s.ReadsBelow w.toNat := by
        split
        · simp [SumX550.ReadsBelow, mem_append, or_imp, forall_and, hi.trans_le hlo]
        · rfl
      have hsum : (if buffer.isSome then { s with reads := s.reads ++ [i] } else s).checksum =
          s.checksum := by
        split <;> rfl
      simp only [if_neg hskip, hword]
      generalize (if buffer.isSome then { s with reads := s.reads ++ [i] } else s) = s1
        at hreads hsum ⊢
      have hnext : ∀ {s' as}, s1.Adds s' (buffer.getD (wordAt ram)) buffer.isSome w.toNat as →
          s.Adds s' (buffer.getD (wordAt ram)) buffer.isSome w.toNat as := fun h =>
        ⟨h.1.trans (by rw [hsum]), h.2.trans (by rw [hreads])⟩
      generalize buffer.getD (wordAt ram) i = pointer at hword ⊢
      have hiff := pointer_invalid_iff pointer w
      by_cases hinv : pointer = 0xFFFF ∨ pointer = 0 ∨ pointer.setWidth 32 ≥ w
      · rw [if_pos hinv, if_pos (.inr (hiff.mp hinv)), nil_append]
        obtain ⟨s', heq, hadds⟩ := ih s1
        exact ⟨s', heq, hnext hadds⟩
      · have hvalid := mt hiff.mpr hinv
        have hsz : (sectionSizeX550 i).toNat ≤ 0x24 := by
          rw [sectionSizeX550]
          split_ifs <;> decide
        obtain ⟨s2, heq, hadds⟩ := checksumPtrX550_spec hfw ram hlo hhi buffer hsize
          (show 0 < pointer.toNat by omega) (by omega) hsz s1
        obtain ⟨s3, heq', hadds'⟩ := ih s2
        rw [if_neg hinv, heq, if_neg (not_not.mpr rfl), if_neg (not_or.mpr ⟨hskip, hvalid⟩)]
        exact ⟨s3, heq', (hnext hadds).append hadds'⟩

theorem calcWordsX550_spec {words : ℕ → U16} (hwords : ∀ i < 0x42,
    words i = buffer.getD (wordAt ram) i) (calls : ℕ) :
    ∃ s', calcWordsX550 fw ram w buffer bufferSize words ⟨0, [], calls⟩ =
        (((eepromSum - s'.checksum).toNat : ℤ), s') ∧
      s'.checksum = sumWords (buffer.getD (wordAt ram))
        (x550Addrs (buffer.getD (wordAt ram)) w.toNat) 0 ∧
      (buffer.isSome = true → (s'.ReadsBelow w.toNat ↔
        ∀ a ∈ x550Addrs (buffer.getD (wordAt ram)) w.toNat, a < w.toNat)) := by
  have hfirst : ∀ i ∈ firstWordsX550, i < 0x42 := by decide
  have hptrs : ∀ i ∈ x550Pointers, i < 0x42 := by decide
  rw [calcWordsX550, SumX550.foldl_add]
  have hadds : SumX550.Adds ⟨0, [], calls⟩ ⟨sumWords words firstWordsX550 0,
      if buffer.isSome then [] ++ firstWordsX550 else [], calls⟩ (buffer.getD (wordAt ram))
      buffer.isSome w.toNat firstWordsX550 := by
    refine ⟨sumWords_congr (fun i hi => hwords i (hfirst i hi)) 0, ?_⟩
    cases buffer <;> simp [SumX550.ReadsBelow]
  obtain ⟨s', heq, hadds'⟩ := addPointersX550_spec hfw ram hlo hhi buffer hsize
    (fun i hi => ⟨hptrs i hi, hwords i (hptrs i hi)⟩) ⟨sumWords words firstWordsX550 0,
      if buffer.isSome then [] ++ firstWordsX550 else [], calls⟩
  rw [heq, if_neg (not_not.mpr rfl)]
  obtain ⟨hsum, hreads⟩ := hadds.append hadds'
  exact ⟨s', rfl, hsum, fun h => hreads.trans (by simp [SumX550.ReadsBelow, h, x550Addrs])⟩

end

theorem x550Addrs_congr {image image' : ℕ → U16} {n : ℕ} (hn : 0x42 ≤ n)
    (h : ∀ a < n, image a = image' a) : x550Addrs image n = x550Addrs image' n := by
  have hptrs : ∀ i ∈ x550Pointers, i < 0x42 := by decide
  rw [x550Addrs, x550Addrs]
  congr 1
  refine flatMap_congr fun i hi => ?_
  rw [x550Section, x550Section, h i ((hptrs i hi).trans_le hn)]
  split_ifs with hskip
  · rfl
  · rw [ptrAddrs, ptrAddrs, h _ (by omega)]

/-- **Both calculations agree** exactly if no section ends beyond the EEPROM. -/
theorem x550_checksums_agree_iff (fw : ℕ → ShadowFirmware) (hfw : ∀ n, (fw n).Works)
    (image : ℕ → U16) (ram : ℕ → U8) (w : U32) (hlo : 0x42 ≤ w.toNat) (hhi : w.toNat < 65535)
    (hsame : ∀ a < w.toNat, wordAt ram a = image a) :
    let buf := calcChecksumX550 fw ram w (some image) w
    let dev := calcChecksumX550 fw ram w none 0
    (0 ≤ buf.1 ∧ buf.1 = dev.1 ∧ ∀ a ∈ buf.2.reads, a < w.toNat) ↔
      ∀ a ∈ x550Addrs image w.toNat, a < w.toNat := by
  have hroom : ¬ w < BitVec.ofNat 32 eepromLastWord := by
    change ¬ w.toNat < 0x41
    omega
  obtain ⟨sb, hbuf, hbsum, hreads⟩ : ∃ s', calcWordsX550 fw ram w (some image) w image ⟨0, [], 0⟩
      = _ ∧
      _ ∧ _ := calcWordsX550_spec hfw ram hlo hhi (some image) (fun _ => rfl) (fun _ _ => rfl) 0
  obtain ⟨hok, hdata⟩ := read_works (hfw 0) 0 (BitVec.ofNat 16 (eepromLastWord + 1))
      (fun _ => 0) ram
  obtain ⟨sd, hdev, hdsum, -⟩ : ∃ s', calcWordsX550 fw ram w none 0 _ ⟨0, [], 1⟩ = _ ∧ _ ∧ _ :=
    calcWordsX550_spec hfw ram hlo hhi none nofun
      (fun i hi => (hdata i hi).trans (congrArg (wordAt ram) (Nat.zero_add i))) 1
  simp only [calcChecksumX550, if_neg hroom, hbuf, hok, ne_eq, not_true_eq_false, if_false, hdev]
  have hreads := hreads rfl
  rw [Option.getD_none, x550Addrs_congr hlo hsame] at hdsum
  constructor
  · rintro ⟨-, -, h⟩
    exact hreads.mp h
  · intro h
    have hsum : sb.checksum = sd.checksum := by
      rw [hbsum, hdsum]
      exact sumWords_congr (fun a ha => (hsame a (h a ha)).symm) 0
    exact ⟨Int.natCast_nonneg _, by rw [hsum], hreads.mpr h⟩

def ramOf (image : ℕ → U16) (a : ℕ) : U8 := byteOf ((image (a / 2)).setWidth 32) (a % 2)

theorem wordAt_ramOf (image : ℕ → U16) (a : ℕ) : wordAt (ramOf image) a = image a := by
  rw [wordAt, ramOf, ramOf, show 2 * a / 2 = a by omega, show 2 * a % 2 = 0 by omega,
    show (2 * a + 1) / 2 = a by omega, show (2 * a + 1) % 2 = 1 by omega, leWord_byteOf]

theorem promptFirmware_works : promptFirmware.Works :=
  ⟨rfl, fun _ _ _ => ⟨rfl, .inr ⟨.inr rfl, rfl⟩⟩⟩

theorem x550_checksums_agree_three_words :
    let image := imageOf [(3, 0x45), (0x45, 3), (0x46, 9)]
    (calcChecksumX550 (fun _ => promptFirmware) (ramOf image) 80 (some image) 80).1 =
      (calcChecksumX550 (fun _ => promptFirmware) (ramOf image) 80 none 0).1 :=
  ((x550_checksums_agree_iff (fun _ => promptFirmware) (fun _ => promptFirmware_works)
    (imageOf [(3, 0x45), (0x45, 3), (0x46, 9)]) _ 80 (by decide) (by decide)
    fun a _ => wordAt_ramOf _ a).mpr (by decide)).2.1

/-- The section at word 0x45 has 11 words, of an EEPROM of 80. -/
theorem x550_buffer_read_beyond :
    let image := imageOf [(3, 0x45), (0x45, 11)]
    let device := imageOf [(3, 0x45), (0x45, 11), (80, 5)]
    let buf := calcChecksumX550 (fun _ => promptFirmware) (ramOf device) 80 (some image) 80
    (∀ a < 80, wordAt (ramOf device) a = image a) ∧ 80 ∈ buf.2.reads ∧
      buf.1 ≠ (calcChecksumX550 (fun _ => promptFirmware) (ramOf device) 80 none 0).1 := by
  decide +kernel

end Ixgbe
