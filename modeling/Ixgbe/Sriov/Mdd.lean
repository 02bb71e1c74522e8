import Ixgbe.Sriov.MsgTask

/-! # Malicious driver detection

`ixgbe_check_mdd_event` maps the queues in `WQBR_TX` and `WQBR_RX` to pools and gives them back. -/

namespace Ixgbe

open WordArray List MacType

def mrqcMrqeMask : U32 := 0xF

def mrqcVmdqRss32En : U32 := 0xA

def mrqcVmdqRt8TcEn : U32 := 0xC

def mrqcVmdqRt4TcEn : U32 := 0xD

section

variable (mrqc : U32)

/-- A queue number is shifted by this to give its pool. -/
def mddShift : ℕ :=
  if mrqc &&& mrqcMrqeMask = mrqcVmdqRt8TcEn then 3
  else if mrqc &&& mrqcMrqeMask = mrqcVmdqRss32En ∨ mrqc &&& mrqcMrqeMask = mrqcVmdqRt4TcEn then 2
  else 1

def mddNumQs : ℕ :=
  if mrqc &&& mrqcMrqeMask = mrqcVmdqRt8TcEn then 8
  else if mrqc &&& mrqcMrqeMask = mrqcVmdqRss32En ∨ mrqc &&& mrqcMrqeMask = mrqcVmdqRt4TcEn then 4
  else 2

/-- The bits of the queues of the first pool. -/
def mddBitmask : U32 :=
  if mrqc &&& mrqcMrqeMask = mrqcVmdqRt8TcEn then 0xFF
  else if mrqc &&& mrqcMrqeMask = mrqcVmdqRss32En ∨ mrqc &&& mrqcMrqeMask = mrqcVmdqRt4TcEn then 0xF
  else 0x3

theorem mddMode_cases :
    (mddShift mrqc = 3 ∧ mddNumQs mrqc = 8 ∧ mddBitmask mrqc = 0xFF) ∨
      (mddShift mrqc = 2 ∧ mddNumQs mrqc = 4 ∧ mddBitmask mrqc = 0xF) ∨
        (mddShift mrqc = 1 ∧ mddNumQs mrqc = 2 ∧ mddBitmask mrqc = 0x3) := by
  unfold mddShift mddNumQs mddBitmask
  by_cases h8 : mrqc &&& mrqcMrqeMask = mrqcVmdqRt8TcEn
  · rw [if_pos h8, if_pos h8, if_pos h8]
    exact Or.inl ⟨rfl, rfl, rfl⟩
  · rw [if_neg h8, if_neg h8, if_neg h8]
    by_cases h4 : mrqc &&& mrqcMrqeMask = mrqcVmdqRss32En ∨ mrqc &&& mrqcMrqeMask = mrqcVmdqRt4TcEn
    · rw [if_pos h4, if_pos h4, if_pos h4]
      exact Or.inr (Or.inl ⟨rfl, rfl, rfl⟩)
    · rw [if_neg h4, if_neg h4, if_neg h4]
      exact Or.inr (Or.inr ⟨rfl, rfl, rfl⟩)

theorem shiftRight_mddShift (q : ℕ) : q >>> mddShift mrqc = q / mddNumQs mrqc := by
  rw [Nat.shiftRight_eq_div_pow]
  rcases mddMode_cases mrqc with ⟨h, h', -⟩ | ⟨h, h', -⟩ | ⟨h, h', -⟩ <;> rw [h, h']

theorem getLsbD_mddBitmask {k : ℕ} (hk : k < 32) :
    (mddBitmask mrqc).getLsbD k = decide (k < mddNumQs mrqc) := by
  have hall : ∀ k < 32, (0xFF#32).getLsbD k = decide (k < 8) ∧
      (0xF#32).getLsbD k = decide (k < 4) ∧ (0x3#32).getLsbD k = decide (k < 2) := by decide
  rcases mddMode_cases mrqc with ⟨-, h, h'⟩ | ⟨-, h, h'⟩ | ⟨-, h, h'⟩ <;> rw [h, h']
  · exact (hall k hk).1
  · exact (hall k hk).2.1
  · exact (hall k hk).2.2

end

/-- Four words for the Tx and four for the Rx queues. -/
structure MddRegs where
  mrqc : U32
  wqbrTx : ℕ → U32
  wqbrRx : ℕ → U32

section

variable (r : MddRegs)

def MddRegs.blocked (q : ℕ) : Bool := bit (fun i => r.wqbrTx i ||| r.wqbrRx i) q

def MddRegs.pool (q : ℕ) : ℕ := q / mddNumQs r.mrqc

def MddRegs.OwnsBlocked (v : ℕ) : Prop :=
  ∃ q < 128, v * mddNumQs r.mrqc ≤ q ∧ q < v * mddNumQs r.mrqc + mddNumQs r.mrqc ∧
    r.blocked q = true

/-- Bits of the array are cleared by writing one. -/
def writeOneToClear (f : ℕ → U32) (idx : ℕ) (reg : U32) : ℕ → U32 :=
  Function.update f idx (f idx &&& ~~~reg)

def restoreMddVfX550 (vf : ℕ) : MddRegs :=
  let startQ := vf * mddNumQs r.mrqc
  let idx := startQ / 32
  let reg := mddBitmask r.mrqc <<< (startQ % 32)
  { r with
    wqbrTx := writeOneToClear r.wqbrTx idx reg
    wqbrRx := writeOneToClear r.wqbrRx idx reg }

/-- The source clears a bit of `wqbr` once seen, which only ends the loop early. -/
def mddEventX550 : ℕ → U32 :=
  (setBits 4 fun i => r.wqbrTx i ||| r.wqbrRx i).foldl
    (fun vfBitmap q => setBit vfBitmap (q >>> mddShift r.mrqc) true) fun _ => 0

end

section

variable (r : MddRegs)

section

variable (macType : MacType)

theorem bit_mddEventX550 (v : ℕ) :
    bit (mddEventX550 r) v = true ↔ ∃ q < 128, r.blocked q = true ∧ r.pool q = v := by
  unfold mddEventX550
  rw [bit_foldl_setBit (by decide)]
  constructor
  · rintro (h | ⟨q, hq, rfl⟩)
    · simp [bit] at h
    · obtain ⟨hlt, hbit⟩ := (mem_setBits _ _ _).mp hq
      exact ⟨q, hlt, hbit, (shiftRight_mddShift _ _).symm⟩
  · rintro ⟨q, hlt, hbit, rfl⟩
    exact Or.inr ⟨q, (mem_setBits _ _ _).mpr ⟨hlt, hbit⟩, shiftRight_mddShift _ _⟩

theorem MddRegs.pool_eq_iff (q v : ℕ) :
    r.pool q = v ↔ v * mddNumQs r.mrqc ≤ q ∧ q < v * mddNumQs r.mrqc + mddNumQs r.mrqc := by
  unfold MddRegs.pool
  rcases mddMode_cases r.mrqc with ⟨-, h, -⟩ | ⟨-, h, -⟩ | ⟨-, h, -⟩ <;> rw [h] <;> omega

theorem MddRegs.ownsBlocked_iff (v : ℕ) :
    r.OwnsBlocked v ↔ ∃ q < 128, r.blocked q = true ∧ r.pool q = v := by
  constructor
  · rintro ⟨q, hlt, hlo, hhi, hb⟩
    exact ⟨q, hlt, hb, (r.pool_eq_iff q v).mpr ⟨hlo, hhi⟩⟩
  · rintro ⟨q, hlt, hb, hv⟩
    obtain ⟨hlo, hhi⟩ := (r.pool_eq_iff q v).mp hv
    exact ⟨q, hlt, hlo, hhi, hb⟩

theorem MddRegs.pool_lt {q : ℕ} (hq : q < 128) : r.pool q < 64 := by
  unfold MddRegs.pool
  rcases mddMode_cases r.mrqc with ⟨-, h, -⟩ | ⟨-, h, -⟩ | ⟨-, h, -⟩ <;> rw [h] <;> omega

theorem bit_writeOneToClear (f : ℕ → U32) (vf q : ℕ) :
    bit (writeOneToClear f (vf * mddNumQs r.mrqc / 32)
      (mddBitmask r.mrqc <<< (vf * mddNumQs r.mrqc % 32))) q =
        (bit f q && !decide (r.pool q = vf)) := by
  have hq : q % 32 < 32 := Nat.mod_lt _ (by decide)
  unfold bit writeOneToClear
  by_cases hword : q / 32 = vf * mddNumQs r.mrqc / 32
  · rw [hword, Function.update_self, BitVec.getLsbD_and, BitVec.getLsbD_not,
      BitVec.getLsbD_shiftLeft, decide_eq_true hq, getLsbD_mddBitmask _ (by omega)]
    -- both say that the queue is one of the pool's
    rw [Bool.true_and, Bool.true_and]
    refine congrArg (fun b => BitVec.getLsbD (f _) _ && !b) ?_
    rw [Bool.eq_iff_iff]
    simp only [Bool.and_eq_true, Bool.not_eq_true', decide_eq_true_eq, decide_eq_false_iff_not,
      r.pool_eq_iff]
    rcases mddMode_cases r.mrqc with ⟨-, h, -⟩ | ⟨-, h, -⟩ | ⟨-, h, -⟩ <;>
      rw [h] at hword ⊢ <;> omega
  · rw [Function.update_of_ne hword]
    have hne : r.pool q ≠ vf := by
      intro hv
      obtain ⟨hlo, hhi⟩ := (r.pool_eq_iff q vf).mp hv
      rcases mddMode_cases r.mrqc with ⟨-, h, -⟩ | ⟨-, h, -⟩ | ⟨-, h, -⟩ <;>
        rw [h] at hword hlo hhi <;> omega
    rw [decide_eq_false hne, Bool.not_false, Bool.and_true]

theorem foldl_restoreMddVfX550 (l : List ℕ) (r : MddRegs) :
    (l.foldl restoreMddVfX550 r).mrqc = r.mrqc ∧
      ∀ q, (bit (l.foldl restoreMddVfX550 r).wqbrTx q = (bit r.wqbrTx q && !decide (r.pool q ∈ l)))
        ∧ bit (l.foldl restoreMddVfX550 r).wqbrRx q =
          (bit r.wqbrRx q && !decide (r.pool q ∈ l)) := by
  induction l generalizing r with
  | nil => simp
  | cons v l ih =>
    obtain ⟨hmrqc, hbits⟩ := ih (restoreMddVfX550 r v)
    refine ⟨hmrqc, fun q => ?_⟩
    obtain ⟨htx, hrx⟩ := hbits q
    have hpool : (restoreMddVfX550 r v).pool q = r.pool q := rfl
    have hstep : ∀ b : Bool, ((b && !decide (r.pool q = v)) && !decide (r.pool q ∈ l)) =
        (b && !decide (r.pool q ∈ v :: l)) := by
      intro b
      by_cases hv : r.pool q = v <;> by_cases hl : r.pool q ∈ l <;> simp [hv, hl]
    rw [foldl_cons, htx, hrx, hpool, ← hstep, ← hstep]
    exact ⟨congrArg (· && _) (bit_writeOneToClear r r.wqbrTx v q),
      congrArg (· && _) (bit_writeOneToClear r r.wqbrRx v q)⟩

/-- With the indices at which `vfinfo` has been accessed, latest first. -/
structure MddState where
  adapter : Adapter
  regs : MddRegs
  vfinfoUses : List ℕ

/-- The queues of the VF are released and the VF is made to rebuild them. -/
def restartVf (s : MddState) (vf : ℕ) : MddState where
  adapter := restartMaliciousVf s.adapter vf
  regs := restoreMddVfX550 s.regs vf
  vfinfoUses := vf :: s.vfinfoUses

def checkMddRegs (s : MddState) : Bool × MddState :=
  if macType.rank ≥ macX550.rank then
    let vfs := setBits 2 (mddEventX550 s.regs)
    (!vfs.isEmpty, vfs.foldl restartVf s)
  else (false, s)

def mddVfs (r : MddRegs) : List ℕ :=
  if macType.rank ≥ macX550.rank then setBits 2 (mddEventX550 r) else []

theorem checkMddRegs_eq (s : MddState) :
    (checkMddRegs macType s).2 = (mddVfs macType s.regs).foldl restartVf s := by
  unfold checkMddRegs mddVfs
  by_cases h : macType.rank ≥ macX550.rank
  · rw [if_pos h, if_pos h]
  · rw [if_neg h, if_neg h]
    rfl

theorem mem_mddVfs (r : MddRegs) (v : ℕ) :
    v ∈ mddVfs macType r ↔ macType.rank ≥ macX550.rank ∧ r.OwnsBlocked v := by
  unfold mddVfs
  split
  case isTrue h =>
    rw [mem_setBits, bit_mddEventX550, ← r.ownsBlocked_iff]
    refine and_congr_left fun ho => ⟨fun _ => h, fun _ => ?_⟩
    obtain ⟨q, hq, -, rfl⟩ := (r.ownsBlocked_iff v).mp ho
    exact r.pool_lt hq
  case isFalse h =>
    simp [h]

theorem pool_mem_mddVfs {macType : MacType} {r : MddRegs} {q : ℕ}
    (hmac : macType.rank ≥ macX550.rank) (hq : q < 128) (hb : r.blocked q = true) :
    r.pool q ∈ mddVfs macType r := by
  rw [mem_mddVfs, r.ownsBlocked_iff]
  exact ⟨hmac, q, hq, hb, rfl⟩

theorem nodup_mddVfs (r : MddRegs) : (mddVfs macType r).Nodup := by
  unfold mddVfs
  split
  · exact nodup_setBits _ _
  · exact nodup_nil

end

theorem foldl_restartVf (l : List ℕ) (s : MddState) :
    (l.foldl restartVf s).adapter = l.foldl restartMaliciousVf s.adapter ∧
      (l.foldl restartVf s).regs = l.foldl restoreMddVfX550 s.regs ∧
        (l.foldl restartVf s).vfinfoUses = l.reverse ++ s.vfinfoUses := by
  induction l generalizing s with
  | nil => exact ⟨rfl, rfl, rfl⟩
  | cons v l ih =>
    obtain ⟨ha, hr, hu⟩ := ih (restartVf s v)
    refine ⟨ha, hr, ?_⟩
    rw [foldl_cons, hu, restartVf, reverse_cons, append_assoc]
    rfl

def mddPing : List U32 := [pfControlMsg ||| msgtypeCts]

theorem foldl_restartMaliciousVf (l : List ℕ) (a : Adapter) :
    (∀ v, ((l.foldl restartMaliciousVf a).vfinfo v).clearToSend =
        ((a.vfinfo v).clearToSend && !decide (v ∈ l))) ∧
      (l.foldl restartMaliciousVf a).mbx.sent =
        (l.map fun v => (v, mddPing)).reverse ++ a.mbx.sent := by
  induction l generalizing a with
  | nil => simp
  | cons v l ih =>
    obtain ⟨hcts, hsent⟩ := ih (restartMaliciousVf a v)
    refine ⟨fun w => ?_, ?_⟩
    · rw [foldl_cons, hcts]
      by_cases hw : w = v
      · subst hw
        simp [restartMaliciousVf, writeMbx, Adapter.modifyVf]
      · simp [restartMaliciousVf, writeMbx, Adapter.modifyVf, hw]
    · rw [foldl_cons, hsent, map_cons, reverse_cons, append_assoc]
      rfl

def vfBitmap64 (vfBitmap : ℕ → U32) : BitVec 64 := vfBitmap 1 ++ vfBitmap 0

theorem setBits_two (vfBitmap : ℕ → U32) :
    setBits 2 vfBitmap = (List.range 64).filter (vfBitmap64 vfBitmap).getLsbD := by
  have hlo : ∀ j ∈ List.range 32, (vfBitmap64 vfBitmap).getLsbD j = (vfBitmap 0).getLsbD j := by
    intro j hj
    rw [vfBitmap64, BitVec.getLsbD_append, if_pos (mem_range.mp hj)]
  have hhi : ∀ j ∈ List.range 32,
      ((vfBitmap64 vfBitmap).getLsbD ∘ fun j => 32 + j) j = (vfBitmap 1).getLsbD j := by
    intro j _
    rw [Function.comp_apply, vfBitmap64, BitVec.getLsbD_append, if_neg (by omega),
      Nat.add_sub_cancel_left]
  have hrange : List.range 64 = List.range 32 ++ (List.range 32).map fun j => 32 + j := by decide
  rw [hrange, filter_append, filter_map, filter_congr hlo, filter_congr hhi]
  simp [setBits, range_succ, Nat.add_comm]

/-- It is the `checkMddEvent` of the message task, at the bitmap of the registers. -/
theorem checkMddEvent_of_regs (cfg : AdapterCfg) (s : MddState) :
    (checkMddRegs cfg.macType s).2.adapter =
      checkMddEvent cfg s.adapter (vfBitmap64 (mddEventX550 s.regs)) := by
  rw [checkMddRegs_eq, (foldl_restartVf _ s).1, checkMddEvent, mddVfs]
  by_cases h : cfg.macType.rank ≥ macX550.rank
  · rw [if_pos h, if_pos h, setBits_two]
  · rw [if_neg h, if_neg h]
    rfl

/-- **Recovery from a malicious-driver event**, from `s` to `s'`, with `numVfs` VFs. -/
structure MddRecovered (numVfs : ℕ) (s s' : MddState) : Prop where
  /-- No queue is blocked any more. -/
  unblocked : ∀ i < 4, s'.regs.wqbrTx i = 0 ∧ s'.regs.wqbrRx i = 0
  /-- The owners of a blocked queue have to reset first. -/
  cleared : ∀ v < numVfs, (s.regs.OwnsBlocked v → (s'.adapter.vfinfo v).clearToSend = false) ∧
    (¬ s.regs.OwnsBlocked v →
      (s'.adapter.vfinfo v).clearToSend = (s.adapter.vfinfo v).clearToSend)
  /-- One message is sent to each of them, and none to anybody else. -/
  sent : ∃ vfs : List ℕ, vfs.Nodup ∧ (∀ v, v ∈ vfs ↔ v < numVfs ∧ s.regs.OwnsBlocked v) ∧
    s'.adapter.mbx.sent = vfs.map (fun v => (v, mddPing)) ++ s.adapter.mbx.sent
  /-- `vfinfo` is accessed at the VFs there are. -/
  inBounds : ∃ uses : List ℕ, s'.vfinfoUses = uses ++ s.vfinfoUses ∧ ∀ v ∈ uses, v < numVfs

theorem word_eq_zero {f : ℕ → U32} (h : ∀ q < 128, bit f q = false) {i : ℕ} (hi : i < 4) :
    f i = 0 := by
  rw [show (0 : U32) = 0#32 from rfl, eq_zero_iff]
  intro j hj
  have hq := h (32 * i + j) (by omega)
  unfold bit at hq
  rwa [Nat.mul_add_div (by decide), Nat.div_eq_of_lt hj, Nat.add_zero, Nat.mul_add_mod,
    Nat.mod_eq_of_lt hj] at hq

theorem MddRegs.blocked_eq (q : ℕ) : r.blocked q = (bit r.wqbrTx q || bit r.wqbrRx q) := by
  simp [MddRegs.blocked, bit]

end

theorem checkMddRegs_unblocked {macType : MacType} (s : MddState)
    (hmac : ∀ q < 128, s.regs.blocked q = true → macType.rank ≥ macX550.rank) {i : ℕ}
    (hi : i < 4) : (checkMddRegs macType s).2.regs.wqbrTx i = 0 ∧
      (checkMddRegs macType s).2.regs.wqbrRx i = 0 := by
  rw [checkMddRegs_eq, (foldl_restartVf _ s).2.1]
  obtain ⟨-, hbits⟩ := foldl_restoreMddVfX550 (mddVfs macType s.regs) s.regs
  -- a blocked queue's pool is among those restored
  have hclear : ∀ {b : Bool} {q}, q < 128 → (b = true → s.regs.blocked q = true) →
      (b && !decide (s.regs.pool q ∈ mddVfs macType s.regs)) = false := by
    intro b q hq hb
    cases b with
    | false => rfl
    | true => rw [decide_eq_true (pool_mem_mddVfs (hmac q hq (hb rfl)) hq (hb rfl))]; rfl
  constructor
  · refine word_eq_zero (fun q hq => (hbits q).1.trans (hclear hq fun hb => ?_)) hi
    rw [s.regs.blocked_eq, hb, Bool.true_or]
  · refine word_eq_zero (fun q hq => (hbits q).2.trans (hclear hq fun hb => ?_)) hi
    rw [s.regs.blocked_eq, hb, Bool.or_true]

theorem MddRegs.blocked_of_zero {r : MddRegs} (h : ∀ i < 4, r.wqbrTx i = 0 ∧ r.wqbrRx i = 0)
    {q : ℕ} (hq : q < 128) : r.blocked q = false := by
  obtain ⟨htx, hrx⟩ := h (q / 32) (by omega)
  simp [MddRegs.blocked, bit, htx, hrx]

/-- **Recovery is right if and only if every blocked queue is a VF's**: at a queue of the PF's own
pools the routine writes past the end of `vfinfo`. -/
theorem checkMddRegs_recovered_iff (macType : MacType) (numVfs : ℕ) (s : MddState) :
    MddRecovered numVfs s (checkMddRegs macType s).2 ↔
      ∀ q < 128, s.regs.blocked q = true →
        macType.rank ≥ macX550.rank ∧ q / mddNumQs s.regs.mrqc < numVfs := by
  obtain ⟨hadapter, hregs, huses⟩ := foldl_restartVf (mddVfs macType s.regs) s
  obtain ⟨hcts, hsent⟩ := foldl_restartMaliciousVf (mddVfs macType s.regs) s.adapter
  constructor
  · intro h q hq hb
    have hmac : macType.rank ≥ macX550.rank := by
      by_contra hmac
      have hsame : (checkMddRegs macType s).2 = s := by rw [checkMddRegs, if_neg hmac]
      have hzero := MddRegs.blocked_of_zero (hsame ▸ h.unblocked) hq
      rw [hb] at hzero
      cases hzero
    refine ⟨hmac, ?_⟩
    -- the pool is among the indices at which `vfinfo` is accessed
    obtain ⟨uses, hEq, hlt⟩ := h.inBounds
    rw [checkMddRegs_eq, huses, append_left_inj] at hEq
    exact hlt _ (hEq ▸ mem_reverse.mpr (pool_mem_mddVfs hmac hq hb))
  · intro h
    have hmem : ∀ v, v ∈ mddVfs macType s.regs ↔ v < numVfs ∧ s.regs.OwnsBlocked v := by
      intro v
      rw [mem_mddVfs]
      refine and_congr_left fun ho => ?_
      obtain ⟨q, hq, hb, rfl⟩ := (s.regs.ownsBlocked_iff v).mp ho
      exact ⟨fun _ => (h q hq hb).2, fun _ => (h q hq hb).1⟩
    refine ⟨fun i hi => checkMddRegs_unblocked s (fun q hq hb => (h q hq hb).1) hi, ?_, ?_, ?_⟩
    · intro v hv
      rw [checkMddRegs_eq, hadapter, hcts]
      constructor
      · intro ho
        rw [decide_eq_true ((hmem v).mpr ⟨hv, ho⟩), Bool.not_true, Bool.and_false]
      · intro ho
        rw [decide_eq_false fun hv' => ho ((hmem v).mp hv').2, Bool.not_false, Bool.and_true]
    · refine ⟨(mddVfs macType s.regs).reverse, List.nodup_reverse.mpr (nodup_mddVfs _ _), ?_, ?_⟩
      · intro v
        rw [mem_reverse, hmem]
      · rw [checkMddRegs_eq, hadapter, hsent, map_reverse]
    · refine ⟨(mddVfs macType s.regs).reverse, by rw [checkMddRegs_eq, huses], ?_⟩
      intro v hv
      exact ((hmem v).mp (mem_reverse.mp hv)).1

/-- Four queues per pool, and the Tx queue `q` blocked. -/
def blockedTx (q : ℕ) : MddState where
  adapter := enabledAdapter oneVfAdapterCfg 0x020000000000
  regs := { mrqc := mrqcVmdqRss32En, wqbrTx := setBit (fun _ => 0) q true, wqbrRx := fun _ => 0 }
  vfinfoUses := []

/-- Its pool is restarted as if it were VF 1, of which there is none. -/
theorem blockedTx_pf_queue :
    (blockedTx 4).regs.blocked 4 = true ∧ ¬ (blockedTx 4).regs.OwnsBlocked 0 ∧
      (checkMddRegs .macX550 (blockedTx 4)).2.vfinfoUses = [1] ∧
      (checkMddRegs .macX550 (blockedTx 4)).2.adapter.mbx.sent =
        (1, mddPing) :: (blockedTx 4).adapter.mbx.sent ∧
      ¬ MddRecovered 1 (blockedTx 4) (checkMddRegs .macX550 (blockedTx 4)).2 := by
  have huses : (checkMddRegs .macX550 (blockedTx 4)).2.vfinfoUses = [1] := by decide +kernel
  refine ⟨by decide, ?_, huses, by rfl, ?_⟩
  · rw [MddRegs.ownsBlocked_iff, ← bit_mddEventX550]
    decide +kernel
  · intro h
    obtain ⟨uses, hEq, hlt⟩ := h.inBounds
    rw [huses, show (blockedTx 4).vfinfoUses = [] from rfl, append_nil] at hEq
    exact absurd (hlt 1 (hEq ▸ mem_singleton_self 1)) (by decide)

end Ixgbe
