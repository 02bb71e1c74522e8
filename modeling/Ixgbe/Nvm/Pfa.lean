import Ixgbe.Nvm.Transfer

/-! # The search in the preserved field area

`ixgbe_get_pfa_module_tlv` walks a list of TLVs with a 16-bit cursor, over flash that nothing
vouches for. -/

namespace Ixgbe

open List

def srPfaPtr : ℕ := 0x40

namespace NvmFirmware

variable (fw : NvmFirmware)

def readTlv (nextTlv : ℕ) (hw : NvmHw) : Except ℤ (ℕ × ℕ) × NvmHw :=
  let t := fw.readEeAci nextTlv hw
  match t.1 with
  | .error e => (.error e, t.2)
  | .ok tlvSubModuleType =>
    let l := fw.readEeAci ((nextTlv + 1) % 2 ^ 16) t.2
    match l.1 with
    | .error e => (.error e, l.2)
    | .ok tlvLen => (.ok (tlvSubModuleType, tlvLen), l.2)

/-- It returns the offset and the length of the TLV. -/
def pfaWalk (moduleType pfaEndPtr : ℕ) : ℕ → ℕ → NvmHw → Option (Except ℤ (ℕ × ℕ) × NvmHw)
  | 0, _, _ => none
  | fuel + 1, nextTlv, hw =>
    if nextTlv < pfaEndPtr then
      let r := fw.readTlv nextTlv hw
      match r.1 with
      -- the loop is left, and the status with it
      | .error _ => some (.error errDoesNotExist, r.2)
      | .ok (tlvSubModuleType, tlvLen) =>
        if tlvSubModuleType = moduleType then
          if tlvLen ≠ 0 then some (.ok (nextTlv, tlvLen), r.2) else some (.error errInvalSize, r.2)
        else pfaWalk moduleType pfaEndPtr fuel ((nextTlv + tlvLen + 2) % 2 ^ 16) r.2
    else some (.error errDoesNotExist, hw)

def getPfaModuleTlv (fuel moduleType : ℕ) (hw : NvmHw) : Option (Except ℤ (ℕ × ℕ) × NvmHw) :=
  let p := fw.readEeAci srPfaPtr hw
  match p.1 with
  | .error e => some (.error e, p.2)
  | .ok pfaPtr =>
    let l := fw.readEeAci pfaPtr p.2
    match l.1 with
    | .error e => some (.error e, l.2)
    | .ok pfaLen =>
      fw.pfaWalk moduleType ((pfaPtr + pfaLen) % 2 ^ 16) fuel ((pfaPtr + 1) % 2 ^ 16) l.2

def srWord (offset : ℕ) : ℕ :=
  (fw.shadowRam (offset * 2)).toNat + (fw.shadowRam (offset * 2 + 1)).toNat * 2 ^ 8

theorem srWord_lt (offset : ℕ) : fw.srWord offset < 2 ^ 16 := by
  unfold srWord
  omega

variable {fw}

variable {offset x : ℕ} {r : Except ℤ (ℕ × ℕ) × NvmHw}

theorem readSrWord_ok {w : ℕ} {hw : NvmHw} (ho : offset < 2 ^ 16)
    (h : (fw.readSrWord offset hw).1 = .ok w) : w = fw.srWord offset := by
  obtain ⟨cmds, -, hsplit⟩ :=
    readFlatNvm_split fw (offset * 2) 2 true hw (fun _ => 0) (by decide) (by omega)
  unfold readSrWord at h
  by_cases hok : (fw.readFlatNvm (offset * 2) 2 true hw fun _ => 0).1 = success
  · rw [if_neg (not_not.mpr hok)] at h
    have hlen := (hsplit.whole hok).1
    rw [hsplit.buffer 0 (by omega), hsplit.buffer 1 (by omega)] at h
    exact (Except.ok.inj h).symm
  · rw [if_pos hok] at h
    cases h

theorem readEeAci_ok {w : ℕ} {hw : NvmHw} (ho : offset < 2 ^ 16)
    (h : (fw.readEeAci offset hw).1 = .ok w) : w = fw.srWord offset := by
  change (fw.readEeWord offset hw).1 = .ok w at h
  unfold readEeWord at h
  dsimp only at h
  split at h
  · cases h
  · exact readSrWord_ok ho h

theorem aciReadNvm_words (m o len start : ℕ) (last shadow : Bool) (s : NvmHw × NvmBuf) :
    (fw.aciReadNvm m o len start last shadow s).2.1.words = s.1.words := by
  unfold aciReadNvm
  split <;> rfl

theorem readFlatNvm_words (fw : NvmFirmware) (offset n : ℕ) (hn : 0 < n) (shadow : Bool)
    (hw : NvmHw) (buf : NvmBuf) :
    (fw.readFlatNvm offset n shadow hw buf).2.2.1.words = hw.words := by
  unfold readFlatNvm
  split
  · rfl
  · rcases Chunked.loop_cases (readStep fw offset shadow) (readSize_fits offset n)
      (fun _ s => s.1.words = hw.words)
      (fun _ _ _ h _ => (aciReadNvm_words _ _ _ _ _ _ _).trans h) hn
      (by omega : n - 0 ≤ n + 1) (s := (hw, buf)) rfl with ⟨s, hrun, h⟩ | ⟨d, s, -, h, -, hrun⟩
    · rw [hrun]
      exact h
    · rw [hrun]
      exact (aciReadNvm_words _ _ _ _ _ _ _).trans h

theorem readEeAci_words (fw : NvmFirmware) (offset : ℕ) (hw : NvmHw) :
    (fw.readEeAci offset hw).2.words = hw.words ++ [(offset, (fw.readEeAci offset hw).1)] := by
  have hinit : (fw.initEepromParams hw).words = hw.words := by
    unfold initEepromParams
    split <;> rfl
  have hacq : (fw.acquireNvm (fw.initEepromParams hw)).2.words = hw.words := by
    rw [← hinit]
    unfold acquireNvm
    split <;> rfl
  have hrel : ∀ hw', (fw.releaseNvm hw').words = hw'.words := fun hw' => by
    unfold releaseNvm
    split <;> rfl
  have hread : ∀ hw', (fw.readSrWord offset hw').2.words = hw'.words := fun hw' => by
    have hflat := fw.readFlatNvm_words (offset * 2) 2 (by decide) true hw' fun _ => 0
    unfold readSrWord
    dsimp only
    split <;> exact hflat
  have hword : (fw.readEeWord offset hw).2.words = hw.words := by
    unfold readEeWord
    dsimp only
    split
    · exact hacq
    · rw [hrel, hread, hacq]
  rw [readEeAci, hword]

theorem readTlv_words (fw : NvmFirmware) (nextTlv : ℕ) (hw : NvmHw) :
    ∃ ws, (fw.readTlv nextTlv hw).2.words = hw.words ++ ws ∧
      ∀ e, (∃ w ∈ ws, w.2 = .error e) ↔ (fw.readTlv nextTlv hw).1 = .error e := by
  have hwords := readEeAci_words fw nextTlv hw
  unfold readTlv
  dsimp only
  cases ht : (fw.readEeAci nextTlv hw).1 with
  | error e =>
    rw [ht] at hwords
    exact ⟨_, hwords, fun e' => by simp⟩
  | ok t =>
    rw [ht] at hwords
    have hwords' := readEeAci_words fw ((nextTlv + 1) % 2 ^ 16) (fw.readEeAci nextTlv hw).2
    rw [hwords, append_assoc] at hwords'
    cases hl : (fw.readEeAci ((nextTlv + 1) % 2 ^ 16) (fw.readEeAci nextTlv hw).2).1 with
    | error e =>
      rw [hl] at hwords'
      exact ⟨_, hwords', fun e' => by simp⟩
    | ok n =>
      rw [hl] at hwords'
      exact ⟨_, hwords', fun e' => by simp⟩

theorem readTlv_ok {nextTlv t n : ℕ} {hw : NvmHw} (hx : nextTlv < 2 ^ 16)
    (h : (fw.readTlv nextTlv hw).1 = .ok (t, n)) :
    t = fw.srWord nextTlv ∧ n = fw.srWord ((nextTlv + 1) % 2 ^ 16) := by
  unfold readTlv at h
  dsimp only at h
  cases ht : (fw.readEeAci nextTlv hw).1 with
  | error e => rw [ht] at h; cases h
  | ok t' =>
    rw [ht] at h
    cases hl : (fw.readEeAci ((nextTlv + 1) % 2 ^ 16) (fw.readEeAci nextTlv hw).2).1 with
    | error e => rw [hl] at h; cases h
    | ok n' =>
      rw [hl] at h
      cases h
      exact ⟨readEeAci_ok hx ht, readEeAci_ok (Nat.mod_lt _ (by decide)) hl⟩

section Round

variable {moduleType pfaEndPtr nextTlv : ℕ} {hw : NvmHw}

theorem pfaWalk_past (h : pfaEndPtr ≤ nextTlv) (fuel : ℕ) :
    fw.pfaWalk moduleType pfaEndPtr (fuel + 1) nextTlv hw =
      some (.error errDoesNotExist, hw) := by
  rw [pfaWalk, if_neg (Nat.not_lt.mpr h)]

theorem pfaWalk_error (h : nextTlv < pfaEndPtr) {e : ℤ}
    (hread : (fw.readTlv nextTlv hw).1 = .error e) (fuel : ℕ) :
    fw.pfaWalk moduleType pfaEndPtr (fuel + 1) nextTlv hw =
      some (.error errDoesNotExist, (fw.readTlv nextTlv hw).2) := by
  rw [pfaWalk, if_pos h]
  dsimp only
  rw [hread]

theorem pfaWalk_found (h : nextTlv < pfaEndPtr) {n : ℕ}
    (hread : (fw.readTlv nextTlv hw).1 = .ok (moduleType, n)) (fuel : ℕ) :
    fw.pfaWalk moduleType pfaEndPtr (fuel + 1) nextTlv hw =
      some (if n ≠ 0 then .ok (nextTlv, n) else .error errInvalSize,
        (fw.readTlv nextTlv hw).2) := by
  rw [pfaWalk, if_pos h]
  dsimp only
  rw [hread]
  dsimp only
  rw [if_pos rfl]
  split <;> rfl

theorem pfaWalk_next (h : nextTlv < pfaEndPtr) {t n : ℕ}
    (hread : (fw.readTlv nextTlv hw).1 = .ok (t, n)) (hne : t ≠ moduleType) (fuel : ℕ) :
    fw.pfaWalk moduleType pfaEndPtr (fuel + 1) nextTlv hw =
      fw.pfaWalk moduleType pfaEndPtr fuel ((nextTlv + n + 2) % 2 ^ 16)
        (fw.readTlv nextTlv hw).2 := by
  rw [pfaWalk, if_pos h]
  dsimp only
  rw [hread]
  dsimp only
  rw [if_neg hne]

end Round

/-- It starts after `ptr` and has `len` words, its first included. -/
def InPfa (ptr len offset : ℕ) : Prop := ptr + 1 ≤ offset ∧ offset + 1 ≤ ptr + len - 1

variable (fw) in
/-- **A sound chain of TLVs**: it leaves the area or comes to a TLV of the type, in the area if it
has a length; no read fails, unless with the error returned anyway. -/
inductive PfaChain (moduleType ptr len : ℕ) : ℕ → NvmHw → Prop where
  | past {x : ℕ} {hw : NvmHw} : (ptr + len) % 2 ^ 16 ≤ x → PfaChain moduleType ptr len x hw
  | absent {x : ℕ} {hw : NvmHw} : x < (ptr + len) % 2 ^ 16 →
      (fw.readTlv x hw).1 = .error errDoesNotExist → PfaChain moduleType ptr len x hw
  | found {x n : ℕ} {hw : NvmHw} : x < (ptr + len) % 2 ^ 16 →
      (fw.readTlv x hw).1 = .ok (moduleType, n) → (n ≠ 0 → InPfa ptr len x) →
      PfaChain moduleType ptr len x hw
  | next {x t n : ℕ} {hw : NvmHw} : x < (ptr + len) % 2 ^ 16 →
      (fw.readTlv x hw).1 = .ok (t, n) → t ≠ moduleType →
      PfaChain moduleType ptr len ((x + n + 2) % 2 ^ 16) (fw.readTlv x hw).2 →
      PfaChain moduleType ptr len x hw

/-- A TLV of the type in the area, and the error of a read that fails. -/
structure PfaResult (fw : NvmFirmware) (moduleType ptr len : ℕ) (hw : NvmHw)
    (r : Except ℤ (ℕ × ℕ) × NvmHw) : Prop where
  found : ∀ offset n, r.1 = .ok (offset, n) →
    fw.srWord offset = moduleType ∧ fw.srWord (offset + 1) = n ∧ InPfa ptr len offset
  readError : ∀ w ∈ r.2.words.drop hw.words.length, ∀ e, w.2 = .error e → r.1 = .error e

variable {moduleType ptr len : ℕ}

theorem PfaResult.after {hw hw' : NvmHw} {ws : List (ℕ × Except ℤ ℕ)}
    (hws : hw'.words = hw.words ++ ws) (hok : ∀ e, ¬ ∃ w ∈ ws, w.2 = .error e)
    (hmore : ∃ ws', r.2.words = hw'.words ++ ws') :
    PfaResult fw moduleType ptr len hw r ↔ PfaResult fw moduleType ptr len hw' r := by
  obtain ⟨ws', hws'⟩ := hmore
  have hdrop : r.2.words.drop hw.words.length = ws ++ ws' := by
    rw [hws', hws, append_assoc, drop_left]
  have hdrop' : r.2.words.drop hw'.words.length = ws' := by rw [hws', drop_left]
  constructor
  · rintro ⟨hfound, hreads⟩
    rw [hdrop] at hreads
    exact ⟨hfound, fun w hw => hreads w (mem_append_right ws (hdrop' ▸ hw))⟩
  · rintro ⟨hfound, hreads⟩
    rw [hdrop'] at hreads
    refine ⟨hfound, fun w hw e he => ?_⟩
    rw [hdrop] at hw
    rcases mem_append.mp hw with hin | hin
    · exact absurd ⟨w, hin, he⟩ (hok e)
    · exact hreads w hin e he

theorem PfaResult.after_readTlv {t n : ℕ} {hw : NvmHw} (hread : (fw.readTlv x hw).1 = .ok (t, n))
    (hmore : ∃ ws, r.2.words = (fw.readTlv x hw).2.words ++ ws) :
    PfaResult fw moduleType ptr len hw r ↔
      PfaResult fw moduleType ptr len (fw.readTlv x hw).2 r := by
  obtain ⟨ws, hws, herr⟩ := readTlv_words fw x hw
  refine PfaResult.after hws (fun e hbad => ?_) hmore
  have := (herr e).mp hbad
  rw [hread] at this
  cases this

theorem pfaWalk_words {pfaEndPtr fuel : ℕ} {hw : NvmHw}
    (h : fw.pfaWalk moduleType pfaEndPtr fuel x hw = some r) :
    ∃ ws, r.2.words = hw.words ++ ws := by
  induction fuel generalizing x hw with
  | zero => cases h
  | succ fuel ih =>
    obtain ⟨ws, hws, -⟩ := readTlv_words fw x hw
    by_cases hx : x < pfaEndPtr
    · cases hread : (fw.readTlv x hw).1 with
      | error e =>
        rw [pfaWalk_error hx hread, Option.some.injEq] at h
        exact ⟨ws, h ▸ hws⟩
      | ok header =>
        obtain ⟨t, n⟩ := header
        by_cases ht : t = moduleType
        · rw [pfaWalk_found hx (ht ▸ hread), Option.some.injEq] at h
          exact ⟨ws, h ▸ hws⟩
        · rw [pfaWalk_next hx hread ht] at h
          obtain ⟨ws', hws'⟩ := ih h
          exact ⟨ws ++ ws', by rw [hws', hws, append_assoc]⟩
    · rw [pfaWalk_past (Nat.not_lt.mp hx), Option.some.injEq] at h
      exact ⟨[], h ▸ (append_nil _).symm⟩

theorem PfaChain.of_walk {fuel : ℕ} {hw : NvmHw}
    (hrun : fw.pfaWalk moduleType ((ptr + len) % 2 ^ 16) fuel x hw = some r)
    (h : PfaResult fw moduleType ptr len hw r) : fw.PfaChain moduleType ptr len x hw := by
  induction fuel generalizing x hw with
  | zero => cases hrun
  | succ fuel ih =>
    by_cases hx : x < (ptr + len) % 2 ^ 16
    · cases hread : (fw.readTlv x hw).1 with
      | error e =>
        obtain ⟨ws, hws, herr⟩ := readTlv_words fw x hw
        obtain ⟨w, hw', he⟩ := (herr e).mpr hread
        rw [pfaWalk_error hx hread, Option.some.injEq] at hrun
        subst hrun
        have hlost := h.readError w (by rw [hws, drop_left]; exact hw') e he
        exact .absent hx (hread.trans hlost.symm)
      | ok header =>
        obtain ⟨t, n⟩ := header
        by_cases ht : t = moduleType
        · subst ht
          rw [pfaWalk_found hx hread, Option.some.injEq] at hrun
          subst hrun
          exact .found hx hread fun hn => (h.found x n (if_pos hn)).2.2
        · rw [pfaWalk_next hx hread ht] at hrun
          exact .next hx hread ht
            (ih hrun ((PfaResult.after_readTlv hread (pfaWalk_words hrun)).mp h))
    · exact .past (Nat.not_lt.mp hx)

theorem PfaChain.walk {hw : NvmHw} (h : fw.PfaChain moduleType ptr len x hw) :
    (∃ fuel r, fw.pfaWalk moduleType ((ptr + len) % 2 ^ 16) fuel x hw = some r) ∧
      ∀ fuel r, fw.pfaWalk moduleType ((ptr + len) % 2 ^ 16) fuel x hw = some r →
        PfaResult fw moduleType ptr len hw r := by
  -- it is enough to look at one round
  have hround : ∀ {x : ℕ} {hw : NvmHw} {r : Except ℤ (ℕ × ℕ) × NvmHw},
      (∀ fuel, fw.pfaWalk moduleType ((ptr + len) % 2 ^ 16) (fuel + 1) x hw = some r) →
      PfaResult fw moduleType ptr len hw r →
      (∃ fuel r, fw.pfaWalk moduleType ((ptr + len) % 2 ^ 16) fuel x hw = some r) ∧
        ∀ fuel r, fw.pfaWalk moduleType ((ptr + len) % 2 ^ 16) fuel x hw = some r →
          PfaResult fw moduleType ptr len hw r := by
    intro x hw r hrun hr
    refine ⟨⟨1, r, hrun 0⟩, fun fuel r' h' => ?_⟩
    cases fuel with
    | zero => cases h'
    | succ fuel => exact Option.some.inj ((hrun fuel).symm.trans h') ▸ hr
  induction h with
  | past hx =>
    refine hround (pfaWalk_past hx) ⟨fun _ _ h => (nomatch h), fun w hw => ?_⟩
    rw [drop_length] at hw
    exact absurd hw not_mem_nil
  | @absent x hw hx hread =>
    obtain ⟨ws, hws, herr⟩ := readTlv_words fw x hw
    refine hround (pfaWalk_error hx hread) ⟨fun _ _ h => (nomatch h), fun w hin e he => ?_⟩
    rw [hws, drop_left] at hin
    exact hread.symm.trans ((herr e).mp ⟨w, hin, he⟩) |> fun h => by cases h; rfl
  | @found x n hw hx hread hin =>
    obtain ⟨ws, hws, herr⟩ := readTlv_words fw x hw
    have hlt : (ptr + len) % 2 ^ 16 < 2 ^ 16 := Nat.mod_lt _ (by decide)
    obtain ⟨htype, hlen⟩ := readTlv_ok (hx.trans hlt) hread
    rw [Nat.mod_eq_of_lt (by omega)] at hlen
    refine hround (pfaWalk_found hx hread) ⟨fun offset n' h => ?_, fun w hmem e he => ?_⟩
    · by_cases hn : n ≠ 0
      · rw [if_pos hn] at h
        cases h
        exact ⟨htype.symm, hlen.symm, hin hn⟩
      · rw [if_neg hn] at h
        cases h
    · rw [hws, drop_left] at hmem
      have := (herr e).mp ⟨w, hmem, he⟩
      rw [hread] at this
      cases this
  | @next x t n hw hx hread ht _ ih =>
    obtain ⟨⟨fuel, r, hrun⟩, hall⟩ := ih
    refine ⟨⟨fuel + 1, r, (pfaWalk_next hx hread ht fuel).trans hrun⟩, fun fuel r hrun => ?_⟩
    cases fuel with
    | zero => cases hrun
    | succ fuel =>
      rw [pfaWalk_next hx hread ht] at hrun
      exact (PfaResult.after_readTlv hread (pfaWalk_words hrun)).mpr (hall fuel r hrun)

variable (fw)

abbrev pfaPtr : ℕ := fw.srWord srPfaPtr

/-- **The search is safe**: it returns, and whatever it returns is what it should. -/
def PfaSafe (moduleType : ℕ) (hw : NvmHw) : Prop :=
  (∃ fuel r, fw.getPfaModuleTlv fuel moduleType hw = some r) ∧
    ∀ fuel r, fw.getPfaModuleTlv fuel moduleType hw = some r →
      PfaResult fw moduleType fw.pfaPtr (fw.srWord fw.pfaPtr) hw r

/-- **The area is sound**: the chain from its first TLV is, or it cannot be read. -/
def PfaSound (moduleType : ℕ) (hw : NvmHw) : Prop :=
  let p := fw.readEeAci srPfaPtr hw
  let l := fw.readEeAci fw.pfaPtr p.2
  (∃ e, p.1 = .error e) ∨ (∃ e, l.1 = .error e) ∨
    fw.PfaChain moduleType fw.pfaPtr (fw.srWord fw.pfaPtr) ((fw.pfaPtr + 1) % 2 ^ 16) l.2

theorem PfaResult.of_error {hw hw' : NvmHw} {ws : List (ℕ × Except ℤ ℕ)} {e : ℤ} {a b : ℕ}
    (hws : hw'.words = hw.words ++ ws) (herr : ∀ w ∈ ws, ∀ e', w.2 = .error e' → e' = e) :
    PfaResult fw moduleType a b hw (.error e, hw') := by
  refine ⟨fun _ _ h => (nomatch h), fun w hin e' he => ?_⟩
  rw [hws, drop_left] at hin
  rw [herr w hin e' he]

/-- **The search is safe if and only if the area is sound**: every read succeeds, the 16-bit cursor
leaves the area or comes to a TLV of the type, and one with a length has its header in the area. -/
theorem pfaSafe_iff (moduleType : ℕ) (hw : NvmHw) :
    fw.PfaSafe moduleType hw ↔ fw.PfaSound moduleType hw := by
  have hwords := readEeAci_words fw srPfaPtr hw
  have hwords' := readEeAci_words fw fw.pfaPtr (fw.readEeAci srPfaPtr hw).2
  unfold PfaSafe PfaSound getPfaModuleTlv
  dsimp only
  cases hp : (fw.readEeAci srPfaPtr hw).1 with
  | error e =>
    rw [hp] at hwords
    refine ⟨fun _ => .inl ⟨e, rfl⟩, fun _ => ⟨⟨0, _, rfl⟩, fun _ r hr => ?_⟩⟩
    cases hr
    exact .of_error fw hwords (by simp +contextual)
  | ok ptr =>
    have hptr : ptr = fw.pfaPtr := readEeAci_ok (by decide) hp
    subst hptr
    rw [hp] at hwords
    rw [hwords, List.append_assoc] at hwords'
    dsimp only
    cases hl : (fw.readEeAci fw.pfaPtr (fw.readEeAci srPfaPtr hw).2).1 with
    | error e =>
      rw [hl] at hwords'
      refine ⟨fun _ => .inr (.inl ⟨e, rfl⟩), fun _ => ⟨⟨0, _, rfl⟩, fun _ r hr => ?_⟩⟩
      cases hr
      exact .of_error fw hwords' (by simp +contextual)
    | ok n =>
      have hn : n = fw.srWord fw.pfaPtr := readEeAci_ok (fw.srWord_lt _) hl
      subst hn
      rw [hl] at hwords'
      -- the two reads before the walk have succeeded
      have hafter : ∀ {fuel r}, fw.pfaWalk moduleType ((fw.pfaPtr + fw.srWord fw.pfaPtr) % 2 ^ 16)
          fuel ((fw.pfaPtr + 1) % 2 ^ 16)
          (fw.readEeAci fw.pfaPtr (fw.readEeAci srPfaPtr hw).2).2 = some r →
          (PfaResult fw moduleType fw.pfaPtr (fw.srWord fw.pfaPtr) hw r ↔
            PfaResult fw moduleType fw.pfaPtr (fw.srWord fw.pfaPtr)
              (fw.readEeAci fw.pfaPtr (fw.readEeAci srPfaPtr hw).2).2 r) := fun hrun =>
        PfaResult.after hwords' (fun e => by simp) (pfaWalk_words hrun)
      constructor
      · rintro ⟨⟨fuel, r, hrun⟩, hall⟩
        exact .inr (.inr (.of_walk hrun ((hafter hrun).mp (hall fuel r hrun))))
      · rintro (⟨e, he⟩ | ⟨e, he⟩ | hchain)
        · cases he
        · cases he
        · obtain ⟨hex, hall⟩ := hchain.walk
          exact ⟨hex, fun fuel r hrun => (hafter hrun).mpr (hall fuel r hrun)⟩

theorem readEeAci_obliging {fw : NvmFirmware} (hreply : ∀ k c, (fw.reply k c).1 = success)
    (hacquire : ∀ k, fw.acquireRes k = success) {hw : NvmHw} {size : ℕ}
    (hsize : hw.wordSize = some size) (hmax : size ≤ 2 ^ 16) (ho : offset < size) :
    (fw.readEeAci offset hw).1 = .ok (fw.srWord offset) ∧
      (fw.readEeAci offset hw).2.wordSize = some size := by
  have hstep : ∀ (o len start : ℕ) (last : Bool) (s : NvmHw × NvmBuf), o ≤ aciNvmMaxOffset →
      (fw.aciReadNvm aciNvmStartPoint o len start last true s).1 = success := by
    intro o len start last s hle
    rw [aciReadNvm, if_neg (Nat.not_lt.mpr hle)]
    exact hreply _ _
  have hkeep : ∀ (o len start : ℕ) (last : Bool) (s : NvmHw × NvmBuf),
      (fw.aciReadNvm aciNvmStartPoint o len start last true s).2.1.wordSize = s.1.wordSize := by
    intro o len start last s
    unfold aciReadNvm
    split <;> rfl
  have hflat : ∀ {hw' : NvmHw}, hw'.wordSize = some size →
      (fw.readFlatNvm (offset * 2) 2 true hw' fun _ => 0).1 = success ∧
        (fw.readFlatNvm (offset * 2) 2 true hw' fun _ => 0).2.2.1.wordSize = some size := by
    intro hw' hsize'
    unfold readFlatNvm
    rw [if_neg (by rw [hsize']; simp only [Option.getD_some]; omega)]
    rcases Chunked.loop_cases (readStep fw (offset * 2) true) (readSize_fits (offset * 2) 2)
      (fun _ s => s.1.wordSize = some size) (fun _ _ _ h _ => (hkeep _ _ _ _ _).trans h)
      (by decide : 0 < 2) (by decide : 2 - 0 ≤ 2 + 1) (s := (hw', fun _ => 0)) hsize' with
      ⟨s, hrun, h⟩ | ⟨d, s, hd, -, hfail, -⟩
    · rw [hrun]
      exact ⟨rfl, h⟩
    · have hle : (offset * 2 + d) % 2 ^ 32 ≤ aciNvmMaxOffset := by
        unfold aciNvmMaxOffset
        omega
      exact absurd (hstep _ _ _ _ _ hle) hfail
  have hacq : ∀ hw' : NvmHw, (fw.acquireNvm hw').1 = success ∧
      (fw.acquireNvm hw').2.wordSize = hw'.wordSize := by
    intro hw'
    unfold acquireNvm
    split
    · exact ⟨hacquire _, rfl⟩
    · exact ⟨rfl, rfl⟩
  have hinit : fw.initEepromParams hw = hw := by
    unfold initEepromParams
    rw [hsize]
  have hrel : ∀ hw' : NvmHw, (fw.releaseNvm hw').wordSize = hw'.wordSize := by
    intro hw'
    unfold releaseNvm
    split <;> rfl
  obtain ⟨hok, hflatSize⟩ := hflat ((hacq hw).2.trans hsize)
  have hread : ∃ w, (fw.readSrWord offset (fw.acquireNvm hw).2).1 = .ok w ∧
      (fw.readSrWord offset (fw.acquireNvm hw).2).2.wordSize = some size := by
    unfold readSrWord
    rw [if_neg (not_not.mpr hok)]
    exact ⟨_, rfl, hflatSize⟩
  obtain ⟨w, hw', hwSize⟩ := hread
  change (fw.readEeWord offset hw).1 = _ ∧ (fw.readEeWord offset hw).2.wordSize = _
  unfold readEeWord
  rw [hinit, if_neg (not_not.mpr (hacq hw).1), hrel]
  exact ⟨by rw [hw', readSrWord_ok (by omega) hw'], hwSize⟩

def ofSrWords (words : List (ℕ × ℕ)) (reply : ℕ → NvmCmd → ℤ × ℕ) : NvmFirmware where
  flash := fun _ => 0
  shadowRam := fun i =>
    let w := (words.lookup (i / 2)).getD 0
    if i % 2 = 0 then BitVec.ofNat 8 w else BitVec.ofNat 8 (w / 2 ^ 8)
  reply := reply
  acquireRes := fun _ => success
  flaLocked := true
  srWords := 0x8000
  resetAvoidance := false

def loopDevice : NvmFirmware :=
  ofSrWords [(0x40, 0x100), (0x100, 4), (0x101, 7), (0x102, 0xFFFE)] fun _ _ => (success, aciRcOk)

theorem readTlv_loopDevice {hw : NvmHw} (h : hw.wordSize = some 0x8000) :
    (loopDevice.readTlv 0x101 hw).1 = .ok (7, 0xFFFE) ∧
      (loopDevice.readTlv 0x101 hw).2.wordSize = some 0x8000 := by
  have hone : ∀ (offset : ℕ) {hw : NvmHw}, offset < 0x8000 → hw.wordSize = some 0x8000 →
      (loopDevice.readEeAci offset hw).1 = .ok (loopDevice.srWord offset) ∧
        (loopDevice.readEeAci offset hw).2.wordSize = some 0x8000 :=
    fun _ _ ho hsize => readEeAci_obliging (fun _ _ => rfl) (fun _ => rfl) hsize (by decide) ho
  obtain ⟨htype, hsize⟩ := hone 0x101 (by decide) h
  obtain ⟨hlen, hsize'⟩ := hone ((0x101 + 1) % 2 ^ 16) (by decide) hsize
  unfold readTlv
  dsimp only
  rw [htype]
  rw [hlen]
  exact ⟨rfl, hsize'⟩

theorem pfaWalk_loopDevice (fuel : ℕ) {hw : NvmHw} (h : hw.wordSize = some 0x8000) :
    loopDevice.pfaWalk 9 0x104 fuel 0x101 hw = none := by
  induction fuel generalizing hw with
  | zero => rfl
  | succ fuel ih =>
    obtain ⟨hread, hsize⟩ := readTlv_loopDevice h
    rw [pfaWalk_next (by decide) hread (by decide)]
    exact ih hsize

set_option maxRecDepth 4000 in
/-- A TLV of length `0xFFFE` is its own successor; one in the last word has its length beyond; a
failing read is reported as a missing module. -/
theorem pfa_endless_outside_and_lost_error :
    (∀ fuel, loopDevice.getPfaModuleTlv fuel 9 freshNvmHw = none) ∧
    (∃ hw', (ofSrWords [(0x40, 0x100), (0x100, 2), (0x101, 9), (0x102, 5)]
        fun _ _ => (success, aciRcOk)).getPfaModuleTlv 1 9 freshNvmHw = some (.ok (0x101, 5), hw') ∧
      ¬ InPfa 0x100 2 0x101) ∧
    ∃ hw', (ofSrWords [(0x40, 0x100), (0x100, 4), (0x101, 9), (0x102, 1)]
        fun k _ => if k = 2 then (errAciError, aciRcEinval) else
          (success, aciRcOk)).getPfaModuleTlv 1
          9 freshNvmHw = some (.error errDoesNotExist, hw') ∧
      (0x101, .error errAciError) ∈ hw'.words := by
  refine ⟨fun fuel => ?_, ⟨_, rfl, ?_⟩, ⟨_, rfl, ?_⟩⟩
  · exact pfaWalk_loopDevice fuel rfl
  · exact fun h => absurd h.2 (by decide)
  · exact List.mem_of_getLast? rfl

end NvmFirmware

end Ixgbe
