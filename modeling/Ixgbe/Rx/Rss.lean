import Ixgbe.Queues.Config
import Ixgbe.Library.EventRun

/-! # The redirection table of RSS

`ixgbe_set_rxfh` always writes `RETA` and `ERETA`, where an X550 with SR-IOV uses `PFVFRETA`. The
key is left out. -/

namespace Ixgbe

open List EventRun Nat Function

inductive RssMac
  | mac82598EB
  | later (mac : MacType)
  deriving DecidableEq, Repr

def RssMac.rank : RssMac → ℕ
  | .mac82598EB => 1
  | .later mac => mac.rank

structure RssConfig where
  mac : RssMac
  sriovEnabled : Bool
  vmdqEnabled : Bool
  numTc : ℕ
  vmdqMask : U16
  indices : U16
  mask : U16
  numRxQueues : ℕ
  numVfs : ℕ
  udpIpv4 : Bool
  udpIpv6 : Bool

inductive RetaReg
  | reta (i : ℕ)
  | ereta (i : ℕ)
  | pfvfreta (i pool : ℕ)
  deriving DecidableEq

structure RssState where
  cfg : RssConfig
  tbl : ℕ → U8
  regs : RetaReg → U32
  mrqc : U32

namespace RssConfig

section

variable (c : RssConfig)

def rssIndirTblEntries : ℕ :=
  if c.mac.rank < MacType.macX550.rank then 128 else if c.sriovEnabled then 64 else 512

def rssIndirTblMax : ℕ := if c.mac.rank < MacType.macX550.rank then 16 else 64

def maxQueues : ℕ :=
  let queues := min c.numRxQueues c.rssIndirTblMax
  if c.sriovEnabled ∧ queues < 2 then 2 else queues

def getMask : U16 := if c.sriovEnabled then c.indices - 1 else c.mask

def indicesMulti : U32 := if c.mac = .mac82598EB then 0x11 else 1

/-- The PF has RSS registers of its own. -/
def Multiple : Prop := MacType.macX550.rank ≤ c.mac.rank ∧ c.sriovEnabled = true

instance (c : RssConfig) : Decidable c.Multiple := inferInstanceAs (Decidable (_ ∧ _))

def mrqcMode : U32 :=
  if c.mac = .mac82598EB then if c.mask ≠ 0 then 0x1 else 0
  else (if c.vmdqEnabled then
      if c.numTc > 4 then 0xC else if c.numTc > 1 then 0xD
      else if c.vmdqMask = vmdq4qMask then 0xA else 0xB
    else if c.numTc > 4 then 0x4 else if c.numTc > 1 then 0x5 else 0x1) ||| 0x8000

def rssField : U32 :=
  0x330000 ||| (if c.udpIpv4 then 0x400000 else 0) ||| if c.udpIpv6 then 0x800000 else 0

end

end RssConfig

section

variable (c : RssConfig) (s : RssState) (i : ℕ)

/-- A register is written after every fourth entry. -/
def storeStep (entry : ℕ → U32) (reg : ℕ → RetaReg) (s : U32 × (RetaReg → U32)) (i : ℕ) :
    U32 × (RetaReg → U32) :=
  let reta := s.1 ||| entry i <<< (i % 4 * 8)
  if i % 4 = 3 then (0, update s.2 (reg i) reta) else (reta, s.2)

def storeLoop (entry : ℕ → U32) (reg : ℕ → RetaReg) (n : ℕ) (regs : RetaReg → U32) :
    U32 × (RetaReg → U32) :=
  (range n).foldl (storeStep entry reg) (0, regs)

/-- `j` starts again at `rss`. -/
def fillLoop (rss n : ℕ) (tbl : ℕ → U8) : ℕ × (ℕ → U8) :=
  (range n).foldl (fun s i =>
    let j := if s.1 = rss then 0 else s.1
    (j + 1, update s.2 i (BitVec.ofNat 8 j))) (0, tbl)

def retaReg : RetaReg := if i < 128 then .reta (i / 4) else .ereta (i / 4 - 32)

def storeReta : RssState :=
  { s with regs := (storeLoop (fun i => s.cfg.indicesMulti * (s.tbl i).setWidth 32) retaReg
      s.cfg.rssIndirTblEntries s.regs).2 }

def storeVfreta : RssState :=
  { s with regs := (storeLoop (fun i => (s.tbl i).setWidth 32)
      (fun i => .pfvfreta (i / 4) s.cfg.numVfs) s.cfg.rssIndirTblEntries s.regs).2 }

def setupReta : RssState :=
  let rss := if s.cfg.sriovEnabled ∧ s.cfg.indices.toNat < 4 then 4 else s.cfg.indices.toNat
  storeReta { s with tbl := (fillLoop rss s.cfg.rssIndirTblEntries fun _ => 0).2 }

def setupVfreta : RssState :=
  storeVfreta { s with tbl := (fillLoop s.cfg.indices.toNat 64 s.tbl).2 }

def setupMrqc : RssState :=
  if c.Multiple then setupVfreta { s with cfg := c, mrqc := c.mrqcMode ||| 0x2000 }
  else { setupReta { s with cfg := c } with mrqc := c.mrqcMode ||| c.rssField }

def RssState.putTable (indir : ℕ → U32) : RssState :=
  { s with tbl := fun i =>
      if i < s.cfg.rssIndirTblEntries then (indir i).setWidth 8 else s.tbl i }

/-- `none` is `-EINVAL`. -/
def setRxfh (indir : ℕ → U32) : Option RssState :=
  if ∀ i < s.cfg.rssIndirTblEntries, (indir i).toNat < s.cfg.maxQueues then
    some (storeReta (s.putTable indir))
  else none

def getReta : U32 := ((s.tbl i).setWidth 16 &&& s.cfg.getMask).setWidth 32

def entryByte (w : U32) (i : ℕ) : U8 := w.extractLsb' (i % 4 * 8) 8

/-- In the registers that `MRQC` selects for the PF. -/
def RssState.selected : U8 :=
  entryByte (s.regs (if s.mrqc &&& 0x2000 ≠ 0 then .pfvfreta (i / 4) s.cfg.numVfs else retaReg i)) i

/-- **The agreement**: `ixgbe_get_rxfh` returns the table, and the device uses it. -/
def RssState.Agrees (indir : ℕ → U32) : Prop :=
  ∀ i < s.cfg.rssIndirTblEntries, getReta s i = indir i ∧ (s.selected i).setWidth 32 = indir i

theorem entryByte_pack (b : ℕ → U8) (k j : ℕ) (hj : j < 4) :
    ((b (4 * k)).setWidth 32 ||| (b (4 * k + 1)).setWidth 32 <<< 8 |||
      (b (4 * k + 2)).setWidth 32 <<< 16 ||| (b (4 * k + 3)).setWidth 32 <<< 24).extractLsb'
        (j * 8) 8 = b (4 * k + j) := by
  apply BitVec.eq_of_getLsbD_eq
  intro n hn
  have hbit : j * 8 + n < 32 := by omega
  rw [BitVec.getLsbD_extractLsb', decide_eq_true hn, Bool.true_and]
  have h16 : n < 16 ∧ n < 24 ∧ n < 32 := by omega
  have h24 : 8 + n < 16 ∧ 8 + n < 24 ∧ 16 + n < 24 := by omega
  obtain rfl | rfl | rfl | rfl : j = 0 ∨ j = 1 ∨ j = 2 ∨ j = 3 := by omega
  all_goals simp (disch := omega) [BitVec.getLsbD_of_ge, hn, h16, h24]

theorem storeLoop_add_four (entry : ℕ → U32) (reg : ℕ → RetaReg) (k : ℕ) (regs : RetaReg → U32)
    (h : (storeLoop entry reg (4 * k) regs).1 = 0) :
    storeLoop entry reg (4 * (k + 1)) regs =
      ((0 : U32), update (storeLoop entry reg (4 * k) regs).2 (reg (4 * k + 3))
        (entry (4 * k) ||| entry (4 * k + 1) <<< 8 ||| entry (4 * k + 2) <<< 16 |||
          entry (4 * k + 3) <<< 24)) := by
  have hmod : 4 * k % 4 = 0 := Nat.mul_mod_right 4 k
  have hrange : range (4 * (k + 1)) =
      range (4 * k) ++ [4 * k, 4 * k + 1, 4 * k + 2, 4 * k + 3] := by
    rw [show 4 * (k + 1) = 4 * k + 1 + 1 + 1 + 1 by ring]
    simp only [range_succ, append_assoc, cons_append, nil_append]
  rw [storeLoop, hrange, foldl_append]
  change foldl _ (storeLoop entry reg (4 * k) regs) _ = _
  simp [storeStep, h, Nat.add_mod, hmod]

theorem storeLoop_frame {entry : ℕ → U32} {reg : ℕ → RetaReg} (regs : RetaReg → U32) {r : RetaReg}
    (h : ∀ i, r ≠ reg i) (n : ℕ) : (storeLoop entry reg n regs).2 r = regs r := by
  induction n with
  | zero => rfl
  | succ n ih =>
    rw [storeLoop, range_succ, foldl_append]
    change (storeStep entry reg (storeLoop entry reg n regs) n).2 r = regs r
    unfold storeStep
    split
    · exact (Function.update_of_ne (h n) _ _).trans ih
    · exact ih

theorem storeLoop_spec {entry : ℕ → U32} (reg : ℕ → RetaReg) (b : ℕ → U8)
    (hreg : ∀ i j, reg i = reg j → i / 4 = j / 4) (hsame : ∀ i, reg (4 * (i / 4) + 3) = reg i)
    (regs : RetaReg → U32) (k : ℕ) (hentry : ∀ i < 4 * k, entry i = (b i).setWidth 32) :
    (storeLoop entry reg (4 * k) regs).1 = 0 ∧
      ∀ i < 4 * k, entryByte ((storeLoop entry reg (4 * k) regs).2 (reg i)) i = b i := by
  induction k with
  | zero => exact ⟨rfl, fun i hi => absurd hi (by omega)⟩
  | succ k ih =>
    obtain ⟨hzero, hdone⟩ := ih fun i hi => hentry i (by omega)
    rw [storeLoop_add_four entry reg k regs hzero]
    refine ⟨rfl, fun i hi => ?_⟩
    dsimp only
    by_cases hold : i < 4 * k
    · have hne : reg i ≠ reg (4 * k + 3) := fun h => by have := hreg _ _ h; omega
      rw [Function.update_of_ne hne]
      exact hdone i hold
    · have hq : 4 * (i / 4) + 3 = 4 * k + 3 := by omega
      have hi4 : i = 4 * k + i % 4 := by omega
      rw [← hsame i, hq, Function.update_self, hentry (4 * k) (by omega),
        hentry (4 * k + 1) (by omega), hentry (4 * k + 2) (by omega),
        hentry (4 * k + 3) (by omega), entryByte, entryByte_pack b k _ (Nat.mod_lt i (by decide)),
        ← hi4]

theorem fillLoop_spec (rss n : ℕ) (tbl : ℕ → U8) :
    (if (fillLoop rss n tbl).1 = rss then 0 else (fillLoop rss n tbl).1) = n % rss ∧
      ∀ i < n, (fillLoop rss n tbl).2 i = BitVec.ofNat 8 (i % rss) := by
  induction n with
  | zero => exact ⟨by rw [zero_mod]; split <;> rfl, fun i hi => absurd hi (by omega)⟩
  | succ n ih =>
    obtain ⟨hj, hdone⟩ := ih
    have hstep : fillLoop rss (n + 1) tbl = (n % rss + 1,
        update (fillLoop rss n tbl).2 n (BitVec.ofNat 8 (n % rss))) := by
      rw [fillLoop, range_succ, foldl_append, ← hj]
      rfl
    rw [hstep]
    refine ⟨?_, fun i hi => ?_⟩
    · by_cases hend : n % rss + 1 = rss
      · rw [if_pos hend, ← mod_add_mod, hend, mod_self]
      · rw [if_neg hend]
        rcases Nat.eq_zero_or_pos rss with rfl | hpos
        · simp
        · have := Nat.mod_lt n hpos
          rw [← mod_add_mod n, mod_eq_of_lt (by omega : n % rss + 1 < rss)]
    · by_cases hin : i = n
      · simp [hin]
      · simp only [Function.update_of_ne hin]
        exact hdone i (by omega)

theorem retaReg_div {i j : ℕ} (h : retaReg i = retaReg j) : i / 4 = j / 4 := by
  unfold retaReg at h
  split_ifs at h
  all_goals injection h
  all_goals omega

theorem retaReg_last : retaReg (4 * (i / 4) + 3) = retaReg i := by
  unfold retaReg
  rw [show (4 * (i / 4) + 3) / 4 = i / 4 by omega]
  exact if_congr (by omega) rfl rfl

theorem RssConfig.entries_four : 4 * (c.rssIndirTblEntries / 4) = c.rssIndirTblEntries := by
  unfold rssIndirTblEntries
  split_ifs <;> rfl

theorem RssConfig.multiple_mrqc : (c.mrqcMode ||| 0x2000) &&& 0x2000 ≠ 0 := by
  unfold mrqcMode
  split_ifs <;> decide

theorem RssConfig.single_mrqc : (c.mrqcMode ||| c.rssField) &&& 0x2000 = 0 := by
  have hmode : c.mrqcMode &&& 0x2000 = 0 := by
    unfold mrqcMode
    split_ifs <;> decide
  have hfield : c.rssField &&& 0x2000 = 0 := by
    unfold rssField
    split_ifs <;> decide
  rw [BitVec.and_or_distrib_right, hmode, hfield]
  decide

end

/-- `MRQC` fits, and the registers of the PF are as at the setup. -/
structure RssState.Inv (s : RssState) : Prop where
  mrqc : s.mrqc &&& 0x2000 ≠ 0 ↔ s.cfg.Multiple
  pf : s.cfg.Multiple → ∀ i < 64, entryByte (s.regs (.pfvfreta (i / 4) s.cfg.numVfs)) i =
    BitVec.ofNat 8 (i % s.cfg.indices.toNat)

open RssConfig

theorem inv_setupMrqc (c : RssConfig) (s : RssState) : (setupMrqc c s).Inv := by
  unfold setupMrqc
  split
  case isTrue hm =>
    refine ⟨iff_of_true c.multiple_mrqc hm, fun _ i hi => ?_⟩
    have hentries : c.rssIndirTblEntries = 4 * 16 := by
      rw [rssIndirTblEntries, if_neg (by have := hm.1; omega), if_pos hm.2]
    have hstore := (storeLoop_spec (fun i => .pfvfreta (i / 4) c.numVfs)
      (fillLoop c.indices.toNat 64 s.tbl).2 (fun i j h => by injection h)
      (fun i => by rw [show (4 * (i / 4) + 3) / 4 = i / 4 by omega]) s.regs 16
      fun i _ => rfl).2 i hi
    rw [← hentries] at hstore
    exact hstore.trans ((fillLoop_spec c.indices.toNat 64 s.tbl).2 i hi)
  case isFalse hm =>
    exact ⟨iff_of_false (not_not.mpr c.single_mrqc) hm, fun h => absurd h hm⟩

/-- Within the mask, what the PF's registers have if in use, and zero on the 82598EB. -/
def RssConfig.Keeps (c : RssConfig) (indir : ℕ → U32) : Prop :=
  ∀ i < c.rssIndirTblEntries, (indir i).toNat &&& c.getMask.toNat = (indir i).toNat ∧
    if c.Multiple then (indir i).toNat = i % c.indices.toNat
    else c.mac = .mac82598EB → indir i = 0

theorem RssConfig.maxQueues_le (c : RssConfig) : c.maxQueues ≤ c.rssIndirTblMax := by
  unfold maxQueues rssIndirTblMax
  dsimp only
  split_ifs <;> omega

theorem storeReta_pf (s : RssState) (i pool : ℕ) :
    (storeReta s).regs (.pfvfreta i pool) = s.regs (.pfvfreta i pool) := by
  refine storeLoop_frame s.regs (fun j => ?_) _
  unfold retaReg
  split <;> exact RetaReg.noConfusion

/-- On the 82598EB an index below 16 is stored twice in a byte. -/
theorem storeReta_byte (s : RssState)
    (hlt : ∀ i < s.cfg.rssIndirTblEntries, (s.tbl i).toNat < s.cfg.rssIndirTblMax) {i : ℕ}
    (hi : i < s.cfg.rssIndirTblEntries) :
    (entryByte ((storeReta s).regs (retaReg i)) i).toNat =
      s.cfg.indicesMulti.toNat * (s.tbl i).toNat := by
  have hmul : ∀ i < s.cfg.rssIndirTblEntries,
      s.cfg.indicesMulti.toNat * (s.tbl i).toNat < 256 := by
    intro i hi
    have hi := hlt i hi
    unfold rssIndirTblMax at hi
    unfold indicesMulti
    by_cases hmac : s.cfg.mac = .mac82598EB
    · rw [if_pos (by rw [hmac]; decide)] at hi
      rw [if_pos hmac]
      change 17 * _ < 256
      omega
    · rw [if_neg hmac]
      change 1 * _ < 256
      split at hi <;> omega
  have hentry : ∀ j < 4 * (s.cfg.rssIndirTblEntries / 4),
      s.cfg.indicesMulti * (s.tbl j).setWidth 32 =
        (BitVec.ofNat 8 (s.cfg.indicesMulti.toNat * (s.tbl j).toNat)).setWidth 32 := by
    intro j hj
    rw [s.cfg.entries_four] at hj
    have := hmul j hj
    apply BitVec.eq_of_toNat_eq
    rw [BitVec.toNat_mul, BitVec.toNat_setWidth, BitVec.toNat_setWidth, BitVec.toNat_ofNat,
      mod_eq_of_lt (by omega : (s.tbl j).toNat < 2 ^ 32),
      mod_eq_of_lt (by omega : _ * _ < 2 ^ 32), mod_eq_of_lt (by omega : _ * _ < 2 ^ 8),
      mod_eq_of_lt (by omega : _ * _ < 2 ^ 32)]
  have hstore := (storeLoop_spec retaReg _ (fun _ _ => retaReg_div) retaReg_last s.regs _
    hentry).2 i (by rwa [s.cfg.entries_four])
  rw [s.cfg.entries_four] at hstore
  have hbyte := congrArg BitVec.toNat hstore
  rw [BitVec.toNat_ofNat, mod_eq_of_lt (hmul i hi)] at hbyte
  exact hbyte

theorem agrees_setRxfh_iff {s s' : RssState} (h : s.Inv) {indir : ℕ → U32}
    (hset : setRxfh s indir = some s') : s'.Agrees indir ↔ s.cfg.Keeps indir := by
  rw [setRxfh] at hset
  split_ifs at hset with hall
  obtain rfl := Option.some.inj hset
  have hbyte : ∀ i < s.cfg.rssIndirTblEntries, (indir i).toNat < s.cfg.rssIndirTblMax :=
    fun i hi => (hall i hi).trans_le s.cfg.maxQueues_le
  have hmax : s.cfg.rssIndirTblMax ≤ 64 := by
    unfold rssIndirTblMax
    split <;> omega
  have htbl : ∀ i < s.cfg.rssIndirTblEntries,
      ((s.putTable indir).tbl i).toNat = (indir i).toNat := by
    intro i hi
    have := hbyte i hi
    change (if i < s.cfg.rssIndirTblEntries then (indir i).setWidth 8 else s.tbl i).toNat = _
    rw [if_pos hi, BitVec.toNat_setWidth, mod_eq_of_lt (by omega)]
  refine forall₂_congr fun i (hi : i < s.cfg.rssIndirTblEntries) => and_congr ?_ ?_
  · have := hbyte i hi
    change (((s.putTable indir).tbl i).setWidth 16 &&& s.cfg.getMask).setWidth 32 = indir i ↔ _
    have hand : (indir i).toNat &&& s.cfg.getMask.toNat ≤ (indir i).toNat := and_le_left
    rw [← BitVec.toNat_inj, BitVec.toNat_setWidth, BitVec.toNat_and, BitVec.toNat_setWidth,
      htbl i hi, mod_eq_of_lt (by omega : (indir i).toNat < 2 ^ 16), mod_eq_of_lt (by omega)]
  · rw [← BitVec.toNat_inj, BitVec.toNat_setWidth,
      mod_eq_of_lt (lt_trans (BitVec.isLt _) (by decide))]
    change (entryByte ((storeReta (s.putTable indir)).regs (if s.mrqc &&& 0x2000 ≠ 0 then
      .pfvfreta (i / 4) s.cfg.numVfs else retaReg i)) i).toNat = _ ↔ _
    by_cases hm : s.cfg.Multiple
    · have hi64 : i < 64 := by
        rwa [rssIndirTblEntries, if_neg (by have := hm.1; omega), if_pos hm.2] at hi
      have hmod := mod_le i s.cfg.indices.toNat
      rw [if_pos hm, if_pos (h.mrqc.mpr hm), storeReta_pf]
      rw [RssState.putTable, h.pf hm i hi64, BitVec.toNat_ofNat, mod_eq_of_lt (by omega)]
      exact eq_comm
    · rw [if_neg hm, if_neg (mt h.mrqc.mp hm), storeReta_byte (s.putTable indir)
        (fun j hj => (htbl j hj).trans_lt (hbyte j hj)) hi, htbl i hi, ← BitVec.toNat_inj]
      change s.cfg.indicesMulti.toNat * _ = _ ↔ (_ → _ = 0)
      rw [indicesMulti]
      by_cases hmac : s.cfg.mac = .mac82598EB
      · simp only [hmac, forall_const]
        change 17 * _ = _ ↔ _
        omega
      · simp [hmac]

inductive RssEvent
  | setup (c : RssConfig)
  | setRxfh (indir : ℕ → U32)

def rssStep (s : RssState) : RssEvent → RssState
  | .setup c => setupMrqc c s
  | .setRxfh indir => (setRxfh s indir).getD s

def AfterSetRxfh (P : RssState → (ℕ → U32) → RssState → Prop) (s : RssState) : RssEvent → Prop
  | .setup _ => True
  | .setRxfh indir => ∀ s', setRxfh s indir = some s' → P s indir s'

theorem RssState.Inv.step {s : RssState} (h : s.Inv) (e : RssEvent) : (rssStep s e).Inv := by
  cases e with
  | setup c => exact inv_setupMrqc c s
  | setRxfh indir =>
    change ((setRxfh s indir).getD s).Inv
    rw [setRxfh]
    split_ifs
    · refine ⟨h.mrqc, fun hm i hi => ?_⟩
      rw [Option.getD_some, storeReta_pf]
      exact h.pf hm i hi
    · exact h

/-- **Set and get agree**, and with the device, if and only if every accepted table is one that the
configuration keeps. -/
theorem rss_table_agrees_iff (c : RssConfig) (s : RssState) (es : List RssEvent) :
    Along rssStep (AfterSetRxfh fun _ indir s' => s'.Agrees indir) (setupMrqc c s) es ↔
      Along rssStep (AfterSetRxfh fun s indir _ => s.cfg.Keeps indir) (setupMrqc c s) es := by
  have hstep : ∀ s e, RssState.Inv s → True →
      AfterSetRxfh (fun s indir _ => s.cfg.Keeps indir) s e → (rssStep s e).Inv :=
    fun _ e h _ _ => h.step e
  refine along_iff_along (fun _ _ => True) hstep (fun s e h _ => ?_) (inv_setupMrqc c s)
    (along_of_forall _ es fun _ _ => trivial)
  cases e with
  | setup c => exact Iff.rfl
  | setRxfh indir => exact forall₂_congr fun s' hset => agrees_setRxfh_iff h hset

/-- An X550 with SR-IOV and one VF, and four queues for the PF. -/
def sriovX550 : RssState :=
  setupMrqc ⟨.later .macX550, true, true, 0, vmdq4qMask, 4, 3, 4, 1, false, false⟩
    ⟨⟨.later .macX550, false, false, 0, 0, 4, 0x3F, 4, 0, false, false⟩, fun _ => 0, fun _ => 0, 0⟩

-- The new table sends all flows to queue 0, but `PFVFRETA` still spreads them over four.
theorem rss_table_not_used :
    ¬ Along rssStep (AfterSetRxfh fun _ indir s' => s'.Agrees indir) sriovX550
      [.setRxfh fun _ => 0] := by
  intro h
  have hset : setRxfh sriovX550 (fun _ => 0) = some (storeReta (sriovX550.putTable fun _ => 0)) :=
    if_pos fun _ _ => (by decide : 0 < 4)
  have hkeeps := (agrees_setRxfh_iff (inv_setupMrqc _ _) hset).mp (h.1 _ hset)
  exact absurd (hkeeps 1 (by decide)).2 (by decide)

end Ixgbe
