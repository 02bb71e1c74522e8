import Ixgbe.Eeprom.Eerd

/-! # The checksum of the X540

It covers the first words of the shadow RAM and sections that start with their length. -/

namespace Ixgbe

open Function Nat List

def errEepromChecksum : ℤ := -2

def eepromChecksum : ℕ := 0x3F

/-- The words covered and the checksum add up to it. -/
def eepromSum : U16 := 0xBABA

def pcieAnalogPtr : ℕ := 0x03

def phyPtr : ℕ := 0x04

def optionRomPtr : ℕ := 0x05

def fwPtr : ℕ := 0x0F

/-- What a call meets, by the number of calls before. -/
structure X540Env where
  sync : ℕ → Bool
  poll : ℕ → ℕ → Bool
  flash : ℕ → ℤ

/-- The shadow RAM, and the number of times the semaphore was asked for. -/
structure X540Hw extends EerdHw where
  syncs : ℕ

/-- `n` words from `a` on, unless a read fails. The counters do not wrap. -/
def addWords (poll : ℕ → ℕ → Bool) : ℕ → ℕ → U16 → EerdHw → Option U16 × EerdHw
  | 0, _, checksum, hw => (some checksum, hw)
  | n + 1, a, checksum, hw =>
    let r := readEerdGeneric poll (BitVec.ofNat 16 a) hw
    if r.1 ≠ success then (none, r.2.2) else addWords poll n (a + 1) (checksum + r.2.1) r.2.2

section

variable (image : ℕ → U16) (size : ℕ)

def addSection (poll : ℕ → ℕ → Bool) (i : ℕ) (checksum : U16) (hw : EerdHw) : Option U16 × EerdHw :=
  if i = phyPtr ∨ i = optionRomPtr then (some checksum, hw)
  else
    let r := readEerdGeneric poll (BitVec.ofNat 16 i) hw
    if r.1 ≠ success then (none, r.2.2)
    else
      let pointer := r.2.1
      let hw := r.2.2
      if pointer = 0xFFFF ∨ pointer = 0 ∨ pointer.setWidth 32 ≥ hw.wordSize then (some checksum, hw)
      else
        let r := readEerdGeneric poll pointer hw
        if r.1 ≠ success then (none, r.2.2)
        else
          let length := r.2.1
          let hw := r.2.2
          if length = 0xFFFF ∨ length = 0 ∨
              length.setWidth 32 > hw.wordSize - pointer.setWidth 32 then (some checksum, hw)
          else addWords poll length.toNat (pointer.toNat + 1) checksum hw

def addSections (poll : ℕ → ℕ → Bool) : List ℕ → U16 → EerdHw → Option U16 × EerdHw
  | [], checksum, hw => (some checksum, hw)
  | i :: is, checksum, hw =>
    match addSection poll i checksum hw with
    | (none, hw) => (none, hw)
    | (some checksum, hw) => addSections poll is checksum hw

/-- The pointers of the loop, with those it skips. -/
def x540Pointers : List ℕ := List.range' pcieAnalogPtr (fwPtr - pcieAnalogPtr)

def calcEepromChecksumX540 (poll : ℕ → ℕ → Bool) (hw : EerdHw) : ℤ × EerdHw :=
  match addWords poll eepromChecksum 0 0 hw with
  | (none, hw) => (errEeprom, hw)
  | (some checksum, hw) =>
    match addSections poll x540Pointers checksum hw with
    | (none, hw) => (errEeprom, hw)
    | (some checksum, hw) => ((eepromSum - checksum).toNat, hw)

def readEerdX540 (env : X540Env) (offset : U16) (hw : X540Hw) : ℤ × X540Hw :=
  if env.sync hw.syncs then
    let r := readEerdGeneric env.poll offset hw.toEerdHw
    (r.1, { toEerdHw := r.2.2, syncs := hw.syncs + 1 })
  else (errSwfwSync, { hw with syncs := hw.syncs + 1 })

def updateEepromChecksumX540 (env : X540Env) (hw : X540Hw) : ℤ × X540Hw :=
  let r := readEerdX540 env 0 hw
  if r.1 ≠ success then r
  else
    let n := r.2.syncs
    if !env.sync n then (errSwfwSync, { r.2 with syncs := n + 1 })
    else
      let c := calcEepromChecksumX540 env.poll r.2.toEerdHw
      if c.1 < 0 then (c.1, { toEerdHw := c.2, syncs := n + 1 })
      else
        let w := writeEewrGeneric env.poll (BitVec.ofNat 16 eepromChecksum)
          (BitVec.ofInt 16 c.1) c.2
        if w.1 ≠ success then (w.1, { toEerdHw := w.2, syncs := n + 1 })
        else (env.flash n, { toEerdHw := w.2, syncs := n + 1 })

def validateEepromChecksumX540 (env : X540Env) (hw : X540Hw) : ℤ × X540Hw :=
  let r := readEerdX540 env 0 hw
  if r.1 ≠ success then r
  else
    let n := r.2.syncs
    if !env.sync n then (errSwfwSync, { r.2 with syncs := n + 1 })
    else
      let c := calcEepromChecksumX540 env.poll r.2.toEerdHw
      if c.1 < 0 then (c.1, { toEerdHw := c.2, syncs := n + 1 })
      else
        let v := readEerdGeneric env.poll (BitVec.ofNat 16 eepromChecksum) c.2
        if v.1 ≠ success then (v.1, { toEerdHw := v.2.2, syncs := n + 1 })
        else (if v.2.1 ≠ BitVec.ofInt 16 c.1 then errEepromChecksum else success,
          { toEerdHw := v.2.2, syncs := n + 1 })

def sumWords (as : List ℕ) (s : U16) : U16 := as.foldl (fun s a => s + image a) s

/-- The words covered at pointer `i`: those after the length, if both are plausible. -/
def sectionAddrs (i : ℕ) : List ℕ :=
  let pointer := (image i).toNat
  let length := (image pointer).toNat
  if i = phyPtr ∨ i = optionRomPtr ∨ pointer = 0xFFFF ∨ pointer = 0 ∨ size ≤ pointer ∨
      length = 0xFFFF ∨ length = 0 ∨ size - pointer < length then []
  else List.range' (pointer + 1) length

def checksumAddrs : List ℕ :=
  List.range eepromChecksum ++ x540Pointers.flatMap (sectionAddrs image size)

def imageSum : U16 := sumWords image (checksumAddrs image size) 0

def SectionsFit : Prop := ∀ a ∈ checksumAddrs image size, a < size

instance decidableSectionsFit (image : ℕ → U16) (size : ℕ) :
    Decidable (SectionsFit image size) :=
  inferInstanceAs (Decidable (∀ a ∈ checksumAddrs image size, a < size))

def checksummed : ℕ → U16 :=
  Function.update image eepromChecksum (eepromSum - imageSum image size)

end

/-! ## Reads of the shadow RAM -/

def PollsEnd (poll : ℕ → ℕ → Bool) : Prop := ∀ n, pollUntil (poll n) eerdEewrAttempts 0 = true

/-- Only accesses have been added. -/
structure EerdHw.Same (hw hw' : EerdHw) : Prop where
  mem : hw'.mem = hw.mem
  wordSize : hw'.wordSize = hw.wordSize
  readBits : hw'.readBits = hw.readBits

theorem EerdHw.Same.trans {a b c : EerdHw} (h : a.Same b) (h' : b.Same c) : a.Same c :=
  ⟨h'.mem.trans h.mem, h'.wordSize.trans h.wordSize, h'.readBits.trans h.readBits⟩

/-- Every word of the EEPROM can be addressed, and has a 16-bit address. -/
structure EerdHw.Readable (hw : EerdHw) : Prop where
  field : hw.wordSize.toNat ≤ 2 ^ hw.readBits
  size : hw.wordSize.toNat ≤ 32768

theorem EerdHw.Readable.same {hw hw' : EerdHw} (h : hw.Readable) (hs : hw.Same hw') :
    hw'.Readable :=
  ⟨by rw [hs.wordSize, hs.readBits]; exact h.field, by rw [hs.wordSize]; exact h.size⟩

section

variable {poll : ℕ → ℕ → Bool}

variable {hw : EerdHw} {offset : U16}

theorem setWidth_ge_iff {x : U32} : offset.setWidth 32 ≥ x ↔ x.toNat ≤ offset.toNat := by
  rw [ge_iff_le, BitVec.le_def, BitVec.toNat_setWidth_of_le (by decide)]

theorem readEerdGeneric_of_lt (hpoll : PollsEnd poll)
    (hr : hw.Readable) (ho : offset.toNat < hw.wordSize.toNat) :
    ∃ hw', hw.Same hw' ∧
      readEerdGeneric poll offset hw = (success, hw.mem offset.toNat, hw') := by
  have hcheck := mt setWidth_ge_iff.mp (not_le.mpr ho)
  have hdone : ∀ h : EerdHw, (pollEerdEewrDone poll h).1 = success := fun h => if_pos (hpoll _)
  have haddr : hw.eerdAddr (eerdValue (offset.toNat + 0)) = offset.toNat := by
    rw [add_zero, eerdAddr_eerdValue _ (by have := offset.isLt; omega)]
    exact mod_eq_of_lt (ho.trans_le hr.field)
  refine ⟨(pollEerdEewrDone poll (hw.startRead (eerdValue (offset.toNat + 0)))).2,
    ⟨rfl, rfl, rfl⟩, ?_⟩
  rw [readEerdGeneric, readEerdBufferGeneric, if_neg (by decide), if_neg hcheck,
    show (1 : U16).toNat = 0 + 1 from rfl, readEerdLoop, if_pos (hdone _), readEerdLoop, haddr]
  rfl

theorem readEerdGeneric_of_ge
    (ho : hw.wordSize.toNat ≤ offset.toNat) :
    readEerdGeneric poll offset hw = (errEeprom, 0, hw) := by
  rw [readEerdGeneric, readEerdBufferGeneric, if_neg (by decide), if_pos (setWidth_ge_iff.mpr ho)]

/-- The sum of the words at `as`, unless one is beyond the EEPROM. -/
def coveredSum (image : ℕ → U16) (size : ℕ) (as : List ℕ) (s : U16) : Option U16 :=
  if ∀ a ∈ as, a < size then some (sumWords image as s) else none

@[simp] theorem coveredSum_nil (image : ℕ → U16) (size : ℕ) (s : U16) :
    coveredSum image size [] s = some s := if_pos nofun

theorem coveredSum_append (image : ℕ → U16) (size : ℕ) (as bs : List ℕ) (s : U16) :
    coveredSum image size (as ++ bs) s =
      (coveredSum image size as s).bind (coveredSum image size bs) := by
  unfold coveredSum
  by_cases has : ∀ a ∈ as, a < size
  · rw [if_pos has, Option.bind_some]
    by_cases hbs : ∀ a ∈ bs, a < size
    · rw [if_pos hbs, if_pos fun a ha => (List.mem_append.mp ha).elim (has a) (hbs a), sumWords,
        foldl_append]
      rfl
    · rw [if_neg hbs, if_neg fun h => hbs fun a ha => h a (mem_append_right _ ha)]
  · rw [if_neg has, if_neg fun h => has fun a ha => h a (mem_append_left _ ha)]
    rfl

theorem addWords_spec (hpoll : PollsEnd poll) (n a : ℕ) (s : U16) (hw : EerdHw)
    (hr : hw.Readable) (ha : a + n ≤ 2 ^ 16) :
    (addWords poll n a s hw).1 = coveredSum hw.mem hw.wordSize.toNat (List.range' a n) s ∧
      hw.Same (addWords poll n a s hw).2 := by
  induction n generalizing a s hw with
  | zero => exact ⟨(coveredSum_nil ..).symm, rfl, rfl, rfl⟩
  | succ n ih =>
    have hval : (BitVec.ofNat 16 a).toNat = a := by
      exact mod_eq_of_lt (by omega)
    have hsplit : List.range' a (n + 1) = [a] ++ List.range' (a + 1) n := range'_succ ..
    rw [addWords, hsplit, coveredSum_append]
    by_cases hin : a < hw.wordSize.toNat
    · have hlt : (BitVec.ofNat 16 a).toNat < hw.wordSize.toNat := by rwa [hval]
      obtain ⟨hw', hsame, hread⟩ := readEerdGeneric_of_lt hpoll hr hlt
      have hfirst : coveredSum hw.mem hw.wordSize.toNat [a] s = some (s + hw.mem a) :=
        if_pos (by simpa using hin)
      rw [hread, if_neg (not_not.mpr rfl), hval, hfirst, Option.bind_some]
      obtain ⟨hsum, hsame'⟩ := ih (a + 1) (s + hw.mem a) hw' (hr.same hsame) (by omega)
      rw [hsame.mem, hsame.wordSize] at hsum
      exact ⟨hsum, hsame.trans hsame'⟩
    · have hfirst : coveredSum hw.mem hw.wordSize.toNat [a] s = none :=
        if_neg (by simpa using hin)
      rw [readEerdGeneric_of_ge (by rw [hval]; omega), if_pos (show errEeprom ≠ success by decide),
        hfirst]
      exact ⟨rfl, rfl, rfl, rfl⟩

theorem pointer_invalid_iff (p : U16) (w : U32) :
    (p = 0xFFFF ∨ p = 0 ∨ p.setWidth 32 ≥ w) ↔
      p.toNat = 0xFFFF ∨ p.toNat = 0 ∨ w.toNat ≤ p.toNat := by
  rw [ge_iff_le, BitVec.le_def, BitVec.toNat_setWidth_of_le (by decide), BitVec.toNat_eq,
    BitVec.toNat_eq]
  rfl

theorem length_invalid_iff {p : U16} (l : U16) {w : U32} (hp : p.toNat < w.toNat) :
    (l = 0xFFFF ∨ l = 0 ∨ l.setWidth 32 > w - p.setWidth 32) ↔
      l.toNat = 0xFFFF ∨ l.toNat = 0 ∨ w.toNat - p.toNat < l.toNat := by
  have hval : (p.setWidth 32).toNat = p.toNat := BitVec.toNat_setWidth_of_le (by decide)
  rw [gt_iff_lt, BitVec.lt_def, BitVec.toNat_setWidth_of_le (by decide),
    BitVec.toNat_sub_of_le (by rw [BitVec.le_def, hval]; exact hp.le), hval, BitVec.toNat_eq,
    BitVec.toNat_eq]
  rfl

theorem addSection_spec (hpoll : PollsEnd poll) {i : ℕ} (s : U16) (hw : EerdHw)
    (hr : hw.Readable) (hi : i < hw.wordSize.toNat) :
    (addSection poll i s hw).1 =
        coveredSum hw.mem hw.wordSize.toNat (sectionAddrs hw.mem hw.wordSize.toNat i) s ∧
      hw.Same (addSection poll i s hw).2 := by
  have hsize := hr.size
  have hval : (BitVec.ofNat 16 i).toNat = i := by
    exact mod_eq_of_lt (by omega)
  have hlt : (BitVec.ofNat 16 i).toNat < hw.wordSize.toNat := by rwa [hval]
  simp only [addSection, sectionAddrs]
  by_cases hskip : i = phyPtr ∨ i = optionRomPtr
  · rw [if_pos hskip, if_pos (by tauto), coveredSum_nil]
    exact ⟨rfl, rfl, rfl, rfl⟩
  · obtain ⟨hw1, hsame1, hread1⟩ := readEerdGeneric_of_lt hpoll hr hlt
    rw [if_neg hskip, hread1, if_neg (not_not.mpr rfl), hval, hsame1.wordSize]
    by_cases hptr : hw.mem i = 0xFFFF ∨ hw.mem i = 0 ∨ (hw.mem i).setWidth 32 ≥ hw.wordSize
    · have hptr' := (pointer_invalid_iff _ _).mp hptr
      rw [if_pos hptr, if_pos (by tauto), coveredSum_nil]
      exact ⟨rfl, hsame1⟩
    · have hptr' := mt (pointer_invalid_iff _ _).mpr hptr
      have hin : (hw.mem i).toNat < hw.wordSize.toNat := by omega
      have hin1 : (hw.mem i).toNat < hw1.wordSize.toNat := by rwa [hsame1.wordSize]
      obtain ⟨hw2, hsame2, hread2⟩ := readEerdGeneric_of_lt hpoll (hr.same hsame1) hin1
      have hsame := hsame1.trans hsame2
      rw [if_neg hptr, hread2, if_neg (not_not.mpr rfl), hsame1.mem, hsame.wordSize]
      by_cases hlen : hw.mem (hw.mem i).toNat = 0xFFFF ∨ hw.mem (hw.mem i).toNat = 0 ∨
          (hw.mem (hw.mem i).toNat).setWidth 32 > hw.wordSize - (hw.mem i).setWidth 32
      · have hlen' := (length_invalid_iff _ hin).mp hlen
        rw [if_pos hlen, if_pos (by tauto), coveredSum_nil]
        exact ⟨rfl, hsame⟩
      · have hlen' := mt (length_invalid_iff _ hin).mpr hlen
        rw [if_neg hlen, if_neg (by tauto)]
        obtain ⟨hsum, hsame3⟩ := addWords_spec hpoll (hw.mem (hw.mem i).toNat).toNat
          ((hw.mem i).toNat + 1) s hw2 (hr.same hsame) (by omega)
        rw [hsame.mem, hsame.wordSize] at hsum
        exact ⟨hsum, hsame.trans hsame3⟩

theorem addSections_spec (hpoll : PollsEnd poll) (is : List ℕ) (s : U16)
    (hw : EerdHw) (hr : hw.Readable) (his : ∀ i ∈ is, i < hw.wordSize.toNat) :
    (addSections poll is s hw).1 = coveredSum hw.mem hw.wordSize.toNat
        (is.flatMap (sectionAddrs hw.mem hw.wordSize.toNat)) s ∧
      hw.Same (addSections poll is s hw).2 := by
  induction is generalizing s hw with
  | nil => exact ⟨(coveredSum_nil ..).symm, rfl, rfl, rfl⟩
  | cons i is ih =>
    obtain ⟨hsum, hsame⟩ := addSection_spec hpoll s hw hr (his i mem_cons_self)
    rw [flatMap_cons, coveredSum_append, ← hsum, addSections]
    generalize addSection poll i s hw = r at hsame
    obtain ⟨_ | s', hw'⟩ := r
    · exact ⟨rfl, hsame⟩
    · obtain ⟨hrest, hsame'⟩ := ih s' hw' (hr.same hsame) fun j hj =>
        hsame.wordSize.symm ▸ his j (mem_cons_of_mem i hj)
      rw [hsame.mem, hsame.wordSize] at hrest
      exact ⟨hrest, hsame.trans hsame'⟩

theorem calcEepromChecksumX540_spec (hpoll : PollsEnd poll) (hw : EerdHw)
    (hr : hw.Readable) (hlo : 64 < hw.wordSize.toNat) :
    (calcEepromChecksumX540 poll hw).1 =
        (if SectionsFit hw.mem hw.wordSize.toNat then
          ((eepromSum - imageSum hw.mem hw.wordSize.toNat).toNat : ℤ) else errEeprom) ∧
      hw.Same (calcEepromChecksumX540 poll hw).2 := by
  have hptrs : ∀ i ∈ x540Pointers, i < 64 := by decide
  obtain ⟨hfirst, hsame⟩ := addWords_spec hpoll eepromChecksum 0 0 hw hr (by decide)
  have hall : coveredSum hw.mem hw.wordSize.toNat (checksumAddrs hw.mem hw.wordSize.toNat) 0 =
      (addWords poll eepromChecksum 0 0 hw).1.bind (coveredSum hw.mem hw.wordSize.toNat
        (x540Pointers.flatMap (sectionAddrs hw.mem hw.wordSize.toNat))) := by
    rw [checksumAddrs, coveredSum_append, hfirst, range_eq_range']
  have hresult : (if SectionsFit hw.mem hw.wordSize.toNat then
      ((eepromSum - imageSum hw.mem hw.wordSize.toNat).toNat : ℤ) else errEeprom) =
      (coveredSum hw.mem hw.wordSize.toNat (checksumAddrs hw.mem hw.wordSize.toNat) 0).elim
        errEeprom fun s => ((eepromSum - s).toNat : ℤ) := by
    rw [coveredSum, apply_ite (Option.elim · _ _)]
    rfl
  rw [hresult, hall, calcEepromChecksumX540]
  generalize addWords poll eepromChecksum 0 0 hw = r at hsame
  obtain ⟨_ | s, hw'⟩ := r
  · exact ⟨rfl, hsame⟩
  · obtain ⟨hrest, hsame'⟩ := addSections_spec hpoll x540Pointers s hw'
        (hr.same hsame) fun i hi => by
      rw [hsame.wordSize]
      exact (hptrs i hi).trans hlo
    rw [hsame.mem, hsame.wordSize] at hrest
    rw [Option.bind_some, ← hrest]
    simp only
    generalize addSections poll x540Pointers s hw' = r at hsame'
    obtain ⟨_ | s', hw''⟩ := r
    · exact ⟨rfl, hsame.trans hsame'⟩
    · exact ⟨rfl, hsame.trans hsame'⟩

/-- The semaphore is granted, every poll ends in time and the flash is updated. -/
structure X540Env.Works (env : X540Env) : Prop where
  sync : ∀ n, env.sync n = true
  polls : PollsEnd env.poll
  flash : ∀ n, env.flash n = success

theorem writeEewrGeneric_of_lt (hpoll : PollsEnd poll) (v : U16)
    (ho : offset.toNat < hw.wordSize.toNat)
      (hfield : offset.toNat < 2 ^ 14) :
    ∃ hw', EerdHw.Same { hw with mem := update hw.mem offset.toNat v } hw' ∧
      writeEewrGeneric poll offset v hw = (success, hw') := by
  have hcheck := mt setWidth_ge_iff.mp (not_le.mpr ho)
  have hdone : ∀ h : EerdHw, (pollEerdEewrDone poll h).1 = success := fun h => if_pos (hpoll _)
  have haddr : eewrAddr (eewrValue (offset.toNat + 0) v) = offset.toNat := by
    rw [add_zero, eewrAddr_eewrValue _ (by omega), mod_eq_of_lt hfield]
  have hdata : eewrData (eewrValue (offset.toNat + 0) v) = v := by
    rw [add_zero, eewrData_eewrValue _ hfield]
  refine ⟨(pollEerdEewrDone poll ((pollEerdEewrDone poll hw).2.startWrite
    (eewrValue (offset.toNat + 0) v))).2, ⟨?_, rfl, rfl⟩, ?_⟩
  · change update hw.mem (eewrAddr _) (eewrData _) = update hw.mem offset.toNat v
    rw [haddr, hdata]
  · rw [writeEewrGeneric, writeEewrBufferGeneric, if_neg (by decide), if_neg hcheck,
      show (1 : U16).toNat = 0 + 1 from rfl, writeEewrLoop, if_neg (not_not.mpr (hdone _)),
      if_neg (not_not.mpr (hdone _)), writeEewrLoop]

end

variable {env : X540Env} {hw : X540Hw} {image : ℕ → U16}

/-- Both functions start so: the first word, then the sum. -/
theorem calc_after_read (henv : env.Works) (hr : hw.Readable) (hlo : 64 < hw.wordSize.toNat) :
    ∃ hw1 hw2, hw.toEerdHw.Same hw2 ∧
      readEerdX540 env 0 hw = (success, { toEerdHw := hw1, syncs := hw.syncs + 1 }) ∧
      calcEepromChecksumX540 env.poll hw1 = (if SectionsFit hw.mem hw.wordSize.toNat then
        ((eepromSum - imageSum hw.mem hw.wordSize.toNat).toNat : ℤ) else errEeprom, hw2) ∧
      (BitVec.ofNat 16 eepromChecksum).toNat < hw2.wordSize.toNat := by
  have h0 : (0 : U16).toNat < hw.wordSize.toNat := lt_of_le_of_lt (zero_le 64) hlo
  obtain ⟨hw1, hsame1, hread⟩ := readEerdGeneric_of_lt henv.polls hr h0
  obtain ⟨hcalc, hsame2⟩ := calcEepromChecksumX540_spec henv.polls hw1 (hr.same hsame1)
    (by rwa [hsame1.wordSize])
  rw [hsame1.mem, hsame1.wordSize] at hcalc
  have hsame := hsame1.trans hsame2
  refine ⟨hw1, _, hsame, by rw [readEerdX540, if_pos (henv.sync _), hread], Prod.ext hcalc rfl, ?_⟩
  rw [hsame.wordSize]
  exact lt_trans (by decide) hlo

theorem ofInt_toNat (s : U16) : BitVec.ofInt 16 (s.toNat : ℤ) = s := by
  rw [BitVec.ofInt_natCast, BitVec.ofNat_toNat, BitVec.setWidth_eq]

theorem updateEepromChecksumX540_spec (henv : env.Works)
    (hr : hw.Readable) (hlo : 64 < hw.wordSize.toNat) :
    let r := updateEepromChecksumX540 env hw
    (SectionsFit hw.mem hw.wordSize.toNat → r.1 = success ∧
      EerdHw.Same { hw.toEerdHw with mem := checksummed hw.mem hw.wordSize.toNat } r.2.toEerdHw) ∧
    (¬ SectionsFit hw.mem hw.wordSize.toNat → r.1 ≠ success) := by
  obtain ⟨hw1, hw2, hsame, hread, hcalc, hin⟩ := calc_after_read henv hr hlo
  simp only [updateEepromChecksumX540, hread, henv.sync, henv.flash, ne_eq, not_true_eq_false,
    if_false, Bool.not_true, Bool.false_eq_true, hcalc]
  constructor
  · intro hfit
    obtain ⟨hw3, hsame3, hwrite⟩ := writeEewrGeneric_of_lt henv.polls
      (eepromSum - imageSum hw.mem hw.wordSize.toNat) hin (by decide)
    rw [if_pos hfit, if_neg (not_lt.mpr (Int.natCast_nonneg _)), ofInt_toNat, hwrite,
      if_neg (not_not.mpr rfl)]
    exact ⟨rfl, hsame3.mem.trans (by rw [hsame.mem]; rfl), hsame3.wordSize.trans hsame.wordSize,
      hsame3.readBits.trans hsame.readBits⟩
  · intro hfit
    rw [if_neg hfit, if_pos (by decide)]
    exact show errEeprom ≠ success by decide

theorem validateEepromChecksumX540_spec (henv : env.Works)
    (hr : hw.Readable) (hlo : 64 < hw.wordSize.toNat) :
    (validateEepromChecksumX540 env hw).1 = success ↔
      SectionsFit hw.mem hw.wordSize.toNat ∧
        hw.mem eepromChecksum = eepromSum - imageSum hw.mem hw.wordSize.toNat := by
  obtain ⟨hw1, hw2, hsame, hread, hcalc, hin⟩ := calc_after_read henv hr hlo
  simp only [validateEepromChecksumX540, hread, henv.sync, ne_eq, not_true_eq_false, if_false,
    Bool.not_true, Bool.false_eq_true, hcalc]
  by_cases hfit : SectionsFit hw.mem hw.wordSize.toNat
  · obtain ⟨hw3, -, hread3⟩ := readEerdGeneric_of_lt henv.polls (hr.same hsame) hin
    rw [if_pos hfit, if_neg (not_lt.mpr (Int.natCast_nonneg _)), ofInt_toNat, hread3,
      if_neg (not_not.mpr rfl), hsame.mem]
    change (if ¬ hw.mem eepromChecksum = _ then errEepromChecksum else success) = success ↔ _
    by_cases hsum : hw.mem eepromChecksum = eepromSum - imageSum hw.mem hw.wordSize.toNat
    · rw [if_neg (not_not.mpr hsum)]
      exact ⟨fun _ => ⟨hfit, hsum⟩, fun _ => rfl⟩
    · rw [if_pos hsum]
      exact ⟨fun h => absurd h (by decide), fun h => absurd h.2 hsum⟩
  · rw [if_neg hfit, if_pos (by decide)]
    exact ⟨fun h => absurd h (show errEeprom ≠ success by decide), fun h => absurd h.1 hfit⟩

def sectionPointers : List ℕ := x540Pointers.filter fun i => i ≠ phyPtr ∧ i ≠ optionRomPtr

theorem ne_eepromChecksum_of_mem {i : ℕ} (hi : i ∈ x540Pointers) : i ≠ eepromChecksum := by
  have hall : ∀ i ∈ x540Pointers, i ≠ eepromChecksum := by decide
  exact hall i hi

theorem checksumAddrs_update {size : ℕ} (v : U16) (hstart : ∀ i ∈ sectionPointers, image i ≠ 0x3F) :
    checksumAddrs (update image eepromChecksum v) size = checksumAddrs image size := by
  rw [checksumAddrs, checksumAddrs]
  congr 1
  refine List.flatMap_congr fun i hi => ?_
  have hptr : update image eepromChecksum v i = image i :=
    update_of_ne (ne_eepromChecksum_of_mem hi) ..
  by_cases hskip : i = phyPtr ∨ i = optionRomPtr
  · simp only [sectionAddrs]
    rw [if_pos (by tauto), if_pos (by tauto)]
  · have hmem : i ∈ sectionPointers :=
      List.mem_filter.mpr ⟨hi, by simpa [not_or] using hskip⟩
    have hne : (image i).toNat ≠ eepromChecksum := fun h =>
      hstart i hmem (BitVec.eq_of_toNat_eq h)
    have hlen : update image eepromChecksum v (image i).toNat = image (image i).toNat :=
      update_of_ne hne ..
    simp only [sectionAddrs, hptr, hlen]

theorem sumWords_update (v : U16) (as : List ℕ) (s : U16) (has : eepromChecksum ∉ as) :
    sumWords (update image eepromChecksum v) as s = sumWords image as s := by
  induction as generalizing s with
  | nil => rfl
  | cons a as ih =>
    rw [List.mem_cons, not_or] at has
    change sumWords _ as (s + update image eepromChecksum v a) = sumWords _ as (s + image a)
    rw [update_of_ne (Ne.symm has.1), ih _ has.2]

theorem checksummed_stable {size : ℕ}
    (hcover : ∀ i ∈ x540Pointers, eepromChecksum ∉ sectionAddrs image size i)
    (hstart : ∀ i ∈ sectionPointers, image i ≠ 0x3F) :
    (SectionsFit (checksummed image size) size ↔ SectionsFit image size) ∧
      imageSum (checksummed image size) size = imageSum image size := by
  have haddrs : checksumAddrs (checksummed image size) size = checksumAddrs image size :=
    checksumAddrs_update _ hstart
  have hnot : eepromChecksum ∉ checksumAddrs image size := by
    rw [checksumAddrs, List.mem_append, not_or]
    refine ⟨by simp, fun h => ?_⟩
    obtain ⟨i, hi, hmem⟩ := List.mem_flatMap.mp h
    exact hcover i hi hmem
  rw [SectionsFit, SectionsFit, imageSum, haddrs]
  exact ⟨Iff.rfl, sumWords_update _ _ _ hnot⟩

/-- An update succeeds, changes the checksum word only and makes the image valid. -/
def UpdateMakesValid (env : X540Env) (hw : X540Hw) : Prop :=
  let r := updateEepromChecksumX540 env hw
  r.1 = success ∧ (∀ a, a ≠ eepromChecksum → r.2.mem a = hw.mem a) ∧
    (validateEepromChecksumX540 env r.2).1 = success

/-- **The images an update makes valid**: no section ends beyond the EEPROM and, should one start at
the checksum word, the new checksum as its length leaves the sum as it is. -/
theorem x540_update_valid_iff (env : X540Env) (henv : env.Works) (hw : X540Hw)
    (hr : hw.Readable) (hlo : 64 < hw.wordSize.toNat)
    (hcover : ∀ i ∈ x540Pointers, eepromChecksum ∉ sectionAddrs hw.mem hw.wordSize.toNat i) :
    UpdateMakesValid env hw ↔
      SectionsFit hw.mem hw.wordSize.toNat ∧
      ((∃ i ∈ sectionPointers, hw.mem i = 0x3F) →
        SectionsFit (checksummed hw.mem hw.wordSize.toNat) hw.wordSize.toNat ∧
        imageSum (checksummed hw.mem hw.wordSize.toNat) hw.wordSize.toNat =
          imageSum hw.mem hw.wordSize.toNat) := by
  obtain ⟨hgood, hbad⟩ := updateEepromChecksumX540_spec henv hr hlo
  by_cases hfit : SectionsFit hw.mem hw.wordSize.toNat
  · obtain ⟨hok, hsame⟩ := hgood hfit
    have hmem : (updateEepromChecksumX540 env hw).2.mem = checksummed hw.mem hw.wordSize.toNat :=
      hsame.mem
    have hsize : (updateEepromChecksumX540 env hw).2.wordSize = hw.wordSize := hsame.wordSize
    have hbits : (updateEepromChecksumX540 env hw).2.readBits = hw.readBits := hsame.readBits
    have hr' : (updateEepromChecksumX540 env hw).2.Readable :=
      ⟨by rw [hsize, hbits]; exact hr.field, by rw [hsize]; exact hr.size⟩
    have hvalid := validateEepromChecksumX540_spec henv hr' (by rwa [hsize])
    have hself : checksummed hw.mem hw.wordSize.toNat eepromChecksum =
        eepromSum - imageSum hw.mem hw.wordSize.toNat := Function.update_self ..
    have hother : ∀ a, a ≠ eepromChecksum →
        checksummed hw.mem hw.wordSize.toNat a = hw.mem a := fun a ha =>
      Function.update_of_ne ha ..
    rw [UpdateMakesValid, hvalid, hmem, hsize, hself]
    constructor
    · rintro ⟨-, -, hfit', hsum⟩
      refine ⟨hfit, fun _ => ⟨hfit', ?_⟩⟩
      bv_omega
    · rintro ⟨-, hstart⟩
      refine ⟨hok, hother, ?_⟩
      by_cases hptr : ∃ i ∈ sectionPointers, hw.mem i = 0x3F
      · obtain ⟨hfit', hsum⟩ := hstart hptr
        exact ⟨hfit', by rw [hsum]⟩
      · obtain ⟨hfit', hsum⟩ := checksummed_stable hcover
          fun i hi h => hptr ⟨i, hi, h⟩
        exact ⟨hfit'.mpr hfit, by rw [hsum]⟩
  · exact ⟨fun h => absurd h.1 (hbad hfit), fun h => absurd h.1 hfit⟩

def x540Of80 (image : ℕ → U16) : X540Hw where
  wordSize := 80
  readBits := 15
  readBits_ge := by decide
  mem := image
  log := []
  polls := 0
  syncs := 0

def x540Working : X540Env where
  sync := fun _ => true
  poll := fun _ _ => true
  flash := fun _ => success

theorem x540Working_works : x540Working.Works :=
  ⟨fun _ => rfl, fun _ => rfl, fun _ => rfl⟩

theorem x540Of80_readable (image : ℕ → U16) : (x540Of80 image).Readable :=
  ⟨by change 80 ≤ 2 ^ 15; decide, by change 80 ≤ 32768; decide⟩

def imageOf (words : List (ℕ × U16)) (a : ℕ) : U16 := (words.lookup a).getD 0

theorem x540_update_valid_three_words :
    UpdateMakesValid x540Working (x540Of80 (imageOf [(3, 0x45), (0x45, 3), (0x46, 9)])) :=
  (x540_update_valid_iff x540Working x540Working_works _ (x540Of80_readable _) (by decide)
    (by decide)).mpr ⟨by decide, by decide⟩

/-- The section at word 0x45 would end at word 80; and a section starts at the checksum word. -/
theorem x540_update_not_valid :
    (updateEepromChecksumX540 x540Working (x540Of80 (imageOf [(3, 0x45), (0x45, 11)]))).1 =
        errEeprom ∧
      (let hw := x540Of80 (imageOf [(3, 0x3F), (0x10, 0xBA76), (0x3F, 0xFFFF), (0x40, 1)])
       (updateEepromChecksumX540 x540Working hw).1 = success ∧
        (updateEepromChecksumX540 x540Working hw).2.mem 0x3F = 5 ∧
        (validateEepromChecksumX540 x540Working (updateEepromChecksumX540 x540Working hw).2).1 =
          errEepromChecksum) := by
  decide +kernel

end Ixgbe
