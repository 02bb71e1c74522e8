import Ixgbe.Hw.DescRing
import Ixgbe.Library.EventRun
import Ixgbe.Library.RingWalk

/-! # Zero-copy receive

`ixgbe_clean_rx_irq_zc` drops frames of several descriptors by a mark on the next slot, which only a
last descriptor clears. -/

namespace Ixgbe

open Ring Function

/-- From `head` on not in the driver: where the hardware is, and what became of descriptors and
buffers, named by the order in which they are taken. -/
structure ZcRing where
  count : ℕ
  nextToClean : ℕ
  nextToUse : ℕ
  xdp : ℕ → Option ℕ
  discard : ℕ → Bool
  len : ℕ → ℕ
  eop : ℕ → Bool
  /-- `cleaned_count` and `failure` of the running `ixgbe_clean_rx_irq_zc`. -/
  cleanedCount : ℕ
  failure : Bool
  head : ℕ
  taken : ℕ
  written : ℕ
  eopAt : ℕ → Bool
  cleaned : ℕ
  ran : List ℕ
  dropped : List ℕ
  gone : List ℕ

/-- Up to the move to the next descriptor. -/
def allocBufferZc (alloc : ℕ → Bool) (s : Bool × ZcRing) (i : ℕ) : Bool × Bool × ZcRing :=
  let r := s.2
  if alloc i then
    (true, s.1, { r with xdp := update r.xdp i (some r.taken), taken := r.taken + 1 })
  else (false, false, { r with xdp := update r.xdp i none })

def clearLengthZc (s : Bool × ZcRing) (i : ℕ) : Bool × ZcRing :=
  (s.1, { s.2 with len := update s.2.len i 0 })

/-- It returns `ok`; `alloc` is by slot, as a slot is visited at most once. -/
def allocRxBuffersZc (alloc : ℕ → Bool) (r : ZcRing) (count : ℕ) : Bool × ZcRing :=
  if count = 0 then (true, r)
  else
    let i : BitVec 16 := BitVec.ofNat 16 r.nextToUse - BitVec.ofNat 16 r.count
    let w := walk r.count (allocBufferZc alloc) clearLengthZc count (true, r) r.nextToUse i
    let i := (w.2.2 + BitVec.ofNat 16 r.count).toNat
    let r₁ := w.1.2
    (w.1.1, if r₁.nextToUse ≠ i then { r₁ with nextToUse := i } else r₁)

def incNtc (r : ZcRing) : ZcRing :=
  { r with nextToClean := next r.count r.nextToClean, cleaned := r.cleaned + 1 }

/-- The buffer at `next_to_clean` is freed, or handed on, and forgotten. -/
def giveUp (r : ZcRing) : ZcRing :=
  { r with
    gone := (r.xdp r.nextToClean).toList ++ r.gone
    xdp := update r.xdp r.nextToClean none }

/-- Of a frame given to the XDP program (`ixgbe_run_xdp_zc`). -/
inductive ZcVerdict
  /-- `XDP_PASS`; the flag says whether `ixgbe_construct_skb_zc` made an `skb`. -/
  | pass (skb : Bool)
  /-- Dropped, aborted, or a redirect or conversion that failed. -/
  | consumed
  | tx
  /-- `ixgbe_xmit_xdp_ring` had no room for the converted frame. -/
  | txFull
  | redirect
  deriving DecidableEq, Repr

/-- `returns`: `xdp_convert_buff_to_frame` copies the frame and gives the buffer back. -/
def cleanZc (returns : Bool) (r : ZcRing) (v : ZcVerdict) : ZcRing :=
  if r.len r.nextToClean = 0 then r
  else if r.eop r.nextToClean = false then
    let r₁ := incNtc (giveUp r)
    { r₁ with discard := update r₁.discard r₁.nextToClean true }
  else if r.discard r.nextToClean then
    incNtc { giveUp r with
      discard := update r.discard r.nextToClean false, dropped := r.cleaned :: r.dropped }
  else
    let r₁ := { r with ran := r.cleaned :: r.ran }
    let counted := { r₁ with cleanedCount := r.cleanedCount + 1 }
    match v with
    | .tx | .redirect | .consumed => incNtc (giveUp counted)
    | .txFull =>
      -- the driver frees the buffer, which the conversion may have given back already
      let again := if returns then (r.xdp r.nextToClean).toList else []
      incNtc { giveUp counted with gone := again ++ (giveUp counted).gone }
    | .pass true => incNtc (giveUp counted)
    -- no skb: the loop ends, and the frame is looked at again in the next call
    | .pass false => r₁

inductive ZcEvent
  | irq
  /-- The test of `cleaned_count` at the top of the loop. -/
  | refill (alloc : ℕ → Bool)
  | clean (v : ZcVerdict)
  /-- The hardware writes a descriptor back, with length `len + 1`. -/
  | writeBack (len : ℕ) (eop : Bool)

def zcStep (returns : Bool) (r : ZcRing) : ZcEvent → ZcRing
  | .irq =>
    { r with
      cleanedCount := descUnused r.count r.nextToClean r.nextToUse, failure := false }
  | .refill alloc =>
    -- `IXGBE_RX_BUFFER_WRITE`; once it has failed, the call does not try again
    if 16 ≤ r.cleanedCount then
      if r.failure then { r with cleanedCount := 0 }
      else
        let w := allocRxBuffersZc alloc r r.cleanedCount
        { w.2 with cleanedCount := 0, failure := !w.1 }
    else r
  | .clean v => cleanZc returns r v
  | .writeBack len eop =>
    if r.head = r.nextToUse then r
    else { r with
      len := update r.len r.head (len + 1)
      eop := update r.eop r.head eop
      head := next r.count r.head
      written := r.written + 1
      eopAt := update r.eopAt r.written eop }

structure ZcRing.Fresh (r : ZcRing) : Prop where
  pos : 0 < r.count
  lt : r.count < 2 ^ 16
  nextToClean : r.nextToClean = 0
  nextToUse : r.nextToUse = 0
  head : r.head = 0
  xdp : ∀ i, r.xdp i = none
  discard : ∀ i, r.discard i = false
  len : r.len 0 = 0
  cleanedCount : r.cleanedCount = 0
  taken : r.taken = 0
  written : r.written = 0
  cleaned : r.cleaned = 0
  ran : r.ran = []
  dropped : r.dropped = []
  gone : r.gone = []

def fillZcRing (alloc : ℕ → Bool) (r : ZcRing) : ZcRing :=
  (allocRxBuffersZc alloc r (descUnused r.count r.nextToClean r.nextToUse)).2

/-- A last descriptor clears the mark of its slot, any other sets that of the next. -/
def markAt (eop : ℕ → Bool) (n : ℕ) : ℕ → ℕ → Bool
  | 0, _ => false
  | c + 1, i =>
    if eop c then (if i = c % n then false else markAt eop n c i)
    else if i = (c + 1) % n then true else markAt eop n c i

theorem exists_lt_succ_since {A A' B : ℕ → Prop} {c : ℕ} :
    (∃ m < c + 1, A m ∧ A' m ∧ ∀ e, m < e → e < c + 1 → B e) ↔
      A c ∧ A' c ∨ (∃ m < c, A m ∧ A' m ∧ ∀ e, m < e → e < c → B e) ∧ B c := by
  constructor
  · rintro ⟨m, hm, hA, hA', hall⟩
    rcases Nat.lt_succ_iff_lt_or_eq.mp hm with hlt | rfl
    · exact .inr ⟨⟨m, hlt, hA, hA', fun e hme hec => hall e hme (by omega)⟩,
        hall c hlt (Nat.lt_succ_self c)⟩
    · exact .inl ⟨hA, hA'⟩
  · rintro (⟨hA, hA'⟩ | ⟨⟨m, hm, hA, hA', hall⟩, hB⟩)
    · exact ⟨c, Nat.lt_succ_self c, hA, hA', fun e hce hec => by omega⟩
    · refine ⟨m, by omega, hA, hA', fun e hme hec => ?_⟩
      rcases Nat.lt_succ_iff_lt_or_eq.mp hec with hlt | rfl
      · exact hall e hme hlt
      · exact hB

/-- The descriptor before one of its positions was not a last one, and none of its positions since
was. -/
theorem markAt_eq_true_iff (eop : ℕ → Bool) (n c i : ℕ) :
    markAt eop n c i = true ↔ ∃ m < c, (m + 1) % n = i ∧ eop m = false ∧
      ∀ e, m < e → e < c → e % n = i → eop e = false := by
  induction c with
  | zero => simp [markAt]
  | succ c ih =>
    rw [markAt, exists_lt_succ_since, ← ih]
    split
    case isTrue hc =>
      split
      case isTrue hi =>
        simp [hc, hi]
      case isFalse hi =>
        simp [hc, Ne.symm hi]
    case isFalse hc =>
      split
      case isTrue hi =>
        simp [hc, hi]
      case isFalse hi =>
        simp [hc, Ne.symm hi]

theorem markAt_congr {eop eop' : ℕ → Bool} {n c : ℕ} (h : ∀ d < c, eop' d = eop d) (i : ℕ) :
    markAt eop' n c i = markAt eop n c i := by
  induction c with
  | zero => rfl
  | succ c ih =>
    rw [markAt, markAt, h c (Nat.lt_succ_self c), ih fun d hd => h d (Nat.lt_succ_of_lt hd)]

def Single (eop : ℕ → Bool) (d : ℕ) : Prop := eop d = true ∧ (d = 0 ∨ eop (d - 1) = true)

/-- **A stale mark**: in an earlier lap the slot held a middle descriptor, and has not held a last
one since. -/
def LeftMarked (eop : ℕ → Bool) (n d : ℕ) : Prop :=
  ∃ m < d, m % n = d % n ∧ 0 < m ∧ eop (m - 1) = false ∧
    ∀ e, m ≤ e → e < d → e % n = d % n → eop e = false

theorem markAt_self_iff (eop : ℕ → Bool) (n d : ℕ) :
    markAt eop n d (d % n) = true ↔ (0 < d ∧ eop (d - 1) = false) ∨ LeftMarked eop n d := by
  rw [markAt_eq_true_iff]
  constructor
  · rintro ⟨m, hm, hmod, hno, hall⟩
    by_cases hlast : m + 1 = d
    · subst hlast
      exact .inl ⟨Nat.succ_pos m, hno⟩
    · exact .inr ⟨m + 1, by omega, hmod, Nat.succ_pos m, hno, fun e hme => hall e hme⟩
  · rintro (⟨hd, hno⟩ | ⟨m, hm, hmod, hpos, hno, hall⟩)
    · refine ⟨d - 1, by omega, by rw [Nat.sub_add_cancel hd], hno, fun e hme hed => ?_⟩
      omega
    · refine ⟨m - 1, by omega, by rw [Nat.sub_add_cancel hpos, hmod], hno,
        fun e hme hed hmode => ?_⟩
      exact hall e (by omega) hed hmode

theorem Single.markAt_iff {eop : ℕ → Bool} {n d : ℕ} (h : Single eop d) :
    markAt eop n d (d % n) = true ↔ LeftMarked eop n d := by
  rw [markAt_self_iff, or_iff_right]
  rintro ⟨hd, hno⟩
  rcases h.2 with rfl | hprev
  · exact absurd hd (lt_irrefl 0)
  · rw [hno] at hprev
    exact absurd hprev (by decide)

theorem markAt_of_not_single {eop : ℕ → Bool} {n d : ℕ} (hd : eop d = true) (h : ¬ Single eop d) :
    markAt eop n d (d % n) = true := by
  rw [Single, not_and] at h
  have h' := h hd
  rw [not_or] at h'
  exact (markAt_self_iff eop n d).mpr
    (.inl ⟨Nat.pos_of_ne_zero h'.1, Bool.eq_false_iff.mpr h'.2⟩)

end Ixgbe
