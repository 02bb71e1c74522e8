import Ixgbe.Hw.DescRing
import Ixgbe.Library.EventRun

/-! # Zero-copy transmit

`ixgbe_xmit_zc` asks for a write-back only on the last of a batch, noted in `next_rs_idx`;
`ixgbe_clean_xdp_tx_irq` retires what lies before it. Position `d` is at `d % count`. -/

namespace Ixgbe

open Ring Function

def inc16 (m : ℕ) : ℕ := next (2 ^ 16) m

def dec16 (m : ℕ) : ℕ := prev (2 ^ 16) m

theorem inc16_eq {m : ℕ} (h : m + 1 < 2 ^ 16) : inc16 m = m + 1 := if_neg h.ne

theorem dec16_succ (m : ℕ) : dec16 (m + 1) = m := by
  rw [dec16, prev, if_neg (Nat.succ_ne_zero m), Nat.add_sub_cancel]

/-- From `sent` on not in the driver: how far the ring is, which positions are XDP frames, and what
was reported and returned. -/
structure ZcTx where
  count : ℕ
  nextToClean : ℕ
  nextToUse : ℕ
  nextRsIdx : ℕ
  xdpTxActive : ℕ
  xdpf : ℕ → Option ℕ
  rs : ℕ → Bool
  dd : ℕ → Bool
  sent : ℕ
  done : ℕ
  cleaned : ℕ
  xdpAt : ℕ → Bool
  completed : List ℕ
  returned : List ℕ

def ZcTx.unused (s : ZcTx) : ℕ := descUnused s.count s.nextToClean s.nextToUse

/-- A descriptor at `next_to_use`; writing it clears `DD`. -/
def ZcTx.put (s : ZcTx) (xdpf : Option ℕ) (rs : Bool) : ZcTx :=
  { s with
    xdpf := update s.xdpf s.nextToUse xdpf
    rs := update s.rs s.nextToUse rs
    dd := update s.dd s.nextToUse false
    nextToUse := next s.count s.nextToUse
    sent := s.sent + 1
    xdpAt := update s.xdpAt s.sent xdpf.isSome }

inductive XmitZcEnd
  | budget
  /-- No unused descriptor, or no carrier: `work_done = false`. -/
  | noRoom
  /-- The pool has no more descriptors, with `left` of the budget. -/
  | noDesc (left : ℕ)
  deriving DecidableEq, Repr

/-- `txDesc` is the index of the last descriptor written. -/
def xmitZcLoop (carrier : Bool) : ℕ → ℕ → ZcTx → Option ℕ → ZcTx × Option ℕ × XmitZcEnd
  | 0, _, s, txDesc => (s, txDesc, .budget)
  | budget + 1, avail, s, txDesc =>
    if s.unused = 0 ∨ carrier = false then (s, txDesc, .noRoom)
    else match avail with
      | 0 => (s, txDesc, .noDesc budget)
      | avail + 1 =>
        xmitZcLoop carrier budget avail
          { s.put none false with nextRsIdx := s.nextToUse } (some s.nextToUse)

/-- Used up, the unsigned budget has wrapped around and counts as left. -/
def xmitZc (carrier : Bool) (budget avail : ℕ) (s : ZcTx) : Bool × ZcTx :=
  let r := xmitZcLoop carrier budget avail s none
  let s₁ := match r.2.1 with
    | none => r.1
    -- set RS bit for the last frame
    | some i => { r.1 with rs := update r.1.rs i true }
  (match r.2.2 with
    | .budget => true
    | .noRoom => false
    | .noDesc left => decide (0 < left), s₁)

/-- On the ring and `xsk_frames`; `ixgbe_clean_xdp_tx_buffer` is the first branch. -/
def cleanXdpDesc (i : ℕ) (p : ZcTx × ℕ) : ZcTx × ℕ :=
  match p.1.xdpf i with
  | some f =>
    ({ p.1 with
        xdpf := update p.1.xdpf i none
        xdpTxActive := dec16 p.1.xdpTxActive
        returned := f :: p.1.returned }, p.2)
  | none => ({ p.1 with xdpf := update p.1.xdpf i none }, p.2 + 1)

def cleanXdpLoop : ℕ → ℕ → ZcTx × ℕ → ZcTx × ℕ
  | 0, _, p => p
  | k + 1, i, p => cleanXdpLoop k (next p.1.count i) (cleanXdpDesc i p)

def ZcTx.framesReady (s : ZcTx) : ℕ :=
  if s.dd s.nextRsIdx then
    if s.nextToClean ≤ s.nextRsIdx then s.nextRsIdx - s.nextToClean
    else s.nextRsIdx + s.count - s.nextToClean
  else 0

def cleanXdpTx (s : ZcTx) : ZcTx :=
  let ready := s.framesReady
  if ready = 0 then s
  else
    let r := if s.xdpTxActive = 0 then (s, ready) else cleanXdpLoop ready s.nextToClean (s, 0)
    let ntc := (s.nextToClean + ready) % 2 ^ 16
    { r.1 with
      nextToClean := if s.count ≤ ntc then ntc - s.count else ntc
      cleaned := s.cleaned + ready
      completed := if r.2 ≠ 0 then r.2 :: r.1.completed else r.1.completed }

/-- `mapped` is false on a DMA error. -/
def xmitXdpRing (mapped : Bool) (s : ZcTx) : ZcTx :=
  -- IXGBE_XDP_CONSUMED
  if s.unused = 0 ∨ mapped = false then s
  else { s.put (some s.sent) true with xdpTxActive := inc16 s.xdpTxActive }

/-- After the ring is disabled: all that is left is retired. -/
def xskCleanTxRing (s : ZcTx) : ZcTx :=
  let r := cleanXdpLoop (dist s.count s.nextToClean s.nextToUse) s.nextToClean (s, 0)
  { r.1 with completed := if r.2 ≠ 0 then r.2 :: r.1.completed else r.1.completed }

inductive ZcTxEvent
  /-- `ixgbe_clean_xdp_tx_irq`, with its `ixgbe_xmit_zc`. -/
  | clean (carrier : Bool) (budget avail : ℕ)
  | xdp (mapped : Bool)
  /-- The hardware finishes the next descriptor and sets `DD` if it has `RS`. -/
  | finish
  deriving DecidableEq, Repr

def zcTxStep (s : ZcTx) : ZcTxEvent → ZcTx
  | .clean carrier budget avail => (xmitZc carrier budget avail (cleanXdpTx s)).2
  | .xdp mapped => xmitXdpRing mapped s
  | .finish =>
    if s.done = s.sent then s
    else
      let i := s.done % s.count
      { s with done := s.done + 1, dd := if s.rs i then update s.dd i true else s.dd }

/-- Neither `next_rs_idx`, which shares its memory with the flow director, nor `xdp_tx_active` nor
the descriptors are reset. -/
structure ZcTx.Configured (s : ZcTx) : Prop where
  two_le : 2 ≤ s.count
  lt : s.count < 2 ^ 16
  nextRsIdx : s.nextRsIdx < s.count
  nextToClean : s.nextToClean = 0
  nextToUse : s.nextToUse = 0
  sent : s.sent = 0
  done : s.done = 0
  cleaned : s.cleaned = 0
  completed : s.completed = []
  returned : s.returned = []

end Ixgbe
