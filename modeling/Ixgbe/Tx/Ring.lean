import Ixgbe.Hw.Basic
import Ixgbe.Library.Ring

/-! # The transmit ring

`ixgbe_xmit_frame_ring` and `ixgbe_clean_tx_irq` (`ixgbe_main.c`), with a log; which mappings
succeed is chosen. No FCoE or timestamps. -/

namespace Ixgbe

open Ring

structure TxBuffer where
  /-- The last descriptor of the packet that starts here. -/
  nextToWatch : Option ℕ
  skb : Option ℕ
  len : ℕ
  dma : ℕ
  deriving DecidableEq, Repr

/-- Descriptors are represented by `IXGBE_TXD_STAT_DD`. -/
structure TxRing where
  count : ℕ
  nextToUse : ℕ
  nextToClean : ℕ
  buf : ℕ → TxBuffer
  dd : ℕ → Bool

/-- The calls that leave the driver, the latest first. -/
structure TxLog where
  mapped : List (ℕ × ℕ)
  unmapped : List (ℕ × ℕ)
  freed : List ℕ

structure TxState where
  ring : TxRing
  log : TxLog

/-- Its linear part and its fragments, by their lengths. -/
structure Skb where
  id : ℕ
  headlen : ℕ
  frags : List ℕ
  deriving DecidableEq, Repr

section

variable (s : TxState) (i : ℕ)

def TxState.modifyBuf (f : TxBuffer → TxBuffer) : TxState :=
  { s with ring.buf := Function.update s.ring.buf i (f (s.ring.buf i)) }

/-- The hardware's bit is off. -/
def TxState.clearDd : TxState :=
  { s with ring.dd := Function.update s.ring.dd i false }

/-- `dev_kfree_skb_any` and `napi_consume_skb`; `NULL` is ignored. -/
def TxState.freeSkb : Option ℕ → TxState
  | some skb => { s with log.freed := skb :: s.log.freed }
  | none => s

def maxDataPerTxd : ℕ := 16384

/-- In 32 bits. -/
def txdUseCount (size : ℕ) : ℕ := (size + (maxDataPerTxd - 1)) % 2 ^ 32 / maxDataPerTxd

/-- In 16 bits. -/
def Skb.useCount (skb : Skb) : ℕ :=
  (txdUseCount skb.headlen + (skb.frags.map txdUseCount).sum) % 2 ^ 16

def TxRing.descUnused (r : TxRing) : ℕ :=
  ((if r.nextToClean > r.nextToUse then 0 else r.count) + r.nextToClean - r.nextToUse - 1) % 2 ^ 16

/-- `ixgbe_maybe_stop_tx` fails. -/
def TxRing.maybeStopTx (r : TxRing) (size : ℕ) : Bool := decide (r.descUnused < size % 2 ^ 16)

/-- A mapping gets the next number, or fails. -/
def TxState.dmaMap (ok : Bool) (size : ℕ) : Option (ℕ × TxState) :=
  if ok then
    some (s.log.mapped.length, { s with log.mapped := (s.log.mapped.length, size) :: s.log.mapped })
  else none

/-- For a buffer that has a mapping. -/
def TxState.unmapPage : TxState :=
  let b := s.ring.buf i
  let s := if b.len ≠ 0 then { s with log.unmapped := (b.dma, b.len) :: s.log.unmapped } else s
  s.modifyBuf i fun b => { b with len := 0 }

def txSplit (s : TxState) (i size : ℕ) : ℕ × TxState :=
  if size > maxDataPerTxd then
    let i := next s.ring.count i
    txSplit (s.clearDd i) i (size - maxDataPerTxd)
  else (i, s)
termination_by size
decreasing_by simp only [maxDataPerTxd] at *; omega

/-- Buffer `b` is to hold a part of `size` bytes that starts at descriptor `i`. -/
def txMapLoop (ok : ℕ → Bool) (frags : List ℕ) (s : TxState) (i b size k : ℕ) :
    Bool × ℕ × TxState :=
  match s.dmaMap (ok k) size with
  | none => (false, i, s)
  | some (dma, s) =>
    let s := s.modifyBuf b fun b => { b with len := size, dma := dma }
    let r := txSplit s i size
    -- `data_len` is what is left
    if frags.sum = 0 then (true, r)
    else
      match frags with
      | [] => (true, r)
      | frag :: frags =>
        let i := next s.ring.count r.1
        txMapLoop ok frags (r.2.clearDd i) i i frag (k + 1)

/-- Back to the first buffer; `none` when the fuel is out. -/
def txUnwind (first : ℕ) : ℕ → TxState → ℕ → Option TxState
  | 0, _, _ => none
  | fuel + 1, s, i =>
    let s := s.unmapPage i
    if i = first then some s else txUnwind first fuel s (prev s.ring.count i)

def txMap (first : ℕ) (skb : Skb) (ok : ℕ → Bool) : Option (Bool × TxState) :=
  let i := s.ring.nextToUse
  match txMapLoop ok skb.frags (s.clearDd i) i first skb.headlen 0 with
  | (true, i, s) =>
    let s := s.modifyBuf first fun b => { b with nextToWatch := some i }
    some (true, { s with ring.nextToUse := next s.ring.count i })
  | (false, i, s) =>
    (txUnwind first s.ring.count s i).map fun s =>
      let s := s.freeSkb (s.ring.buf first).skb
      let s := s.modifyBuf first fun b => { b with skb := none }
      (false, { s with ring.nextToUse := first })

/-- It is dropped, or sent without or with a context descriptor. -/
inductive Offload
  | drop
  | plain
  | context
  deriving DecidableEq, Repr

def txCtxtdesc : TxState :=
  let i := s.ring.nextToUse
  let s := s.clearDd i
  { s with ring.nextToUse := if i + 1 < s.ring.count then i + 1 else 0 }

/-- Busy, dropped, a mapping failed, or on the ring. -/
inductive XmitResult
  | busy
  | dropped
  | failed
  | sent
  deriving DecidableEq, Repr

def xmitFrameRing (skb : Skb) (offload : Offload) (ok : ℕ → Bool) : Option (XmitResult × TxState) :=
  if s.ring.maybeStopTx (skb.useCount + 3) then some (.busy, s)
  else
    let first := s.ring.nextToUse
    let s := s.modifyBuf first fun b => { b with skb := some skb.id }
    match offload with
    | .drop =>
      let s := s.freeSkb (s.ring.buf first).skb
      some (.dropped, s.modifyBuf first fun b => { b with skb := none })
    | .plain => (txMap s first skb ok).map fun r => (if r.1 then .sent else .failed, r.2)
    | .context =>
      (txMap (txCtxtdesc s) first skb ok).map fun r => (if r.1 then .sent else .failed, r.2)

/-- The position, and the index `i`, which is kept below zero. -/
structure Cursor where
  pos : ℕ
  i : U32
  deriving DecidableEq, Repr

/-- One step on, with the wrap at the end of the ring. -/
def Cursor.advance (count : ℕ) (c : Cursor) : Cursor :=
  if c.i + 1 = 0 then ⟨0, c.i + 1 - BitVec.ofNat 32 count⟩ else ⟨c.pos + 1, c.i + 1⟩

/-- `none` when the fuel is out. -/
def cleanTail (eop : ℕ) : ℕ → TxState → Cursor → Option (TxState × Cursor)
  | 0, _, _ => none
  | fuel + 1, s, c =>
    if c.pos = eop then some (s, c)
    else
      let c := c.advance s.ring.count
      cleanTail eop fuel (s.unmapPage c.pos) c

/-- For the header, whatever its length. -/
def TxState.unmapSingle : TxState :=
  let b := s.ring.buf i
  let s := { s with log.unmapped := (b.dma, b.len) :: s.log.unmapped }
  s.modifyBuf i fun b => { b with len := 0 }

def cleanHead (pos : ℕ) : TxState :=
  let s := s.modifyBuf pos fun b => { b with nextToWatch := none }
  let s := s.freeSkb (s.ring.buf pos).skb
  s.unmapSingle pos

/-- With the packets it has cleaned; `none` when the fuel is out. -/
def cleanLoop : ℕ → TxState → Cursor → U32 → ℕ → Option (TxState × Cursor × ℕ)
  | 0, _, _, _, _ => none
  | fuel + 1, s, c, budget, packets =>
    match (s.ring.buf c.pos).nextToWatch with
    -- no work pending
    | none => some (s, c, packets)
    | some eop =>
      -- the pending work has not been completed
      if s.ring.dd eop = false then some (s, c, packets)
      else
        match cleanTail eop s.ring.count (cleanHead s c.pos) c with
        | none => none
        | some (s, c) =>
          let c := c.advance s.ring.count
          if budget - 1 = 0 then some (s, c, packets + 1)
          else cleanLoop fuel s c (budget - 1) (packets + 1)

/-- With the number of packets cleaned; `down` is the bit `__IXGBE_DOWN`. -/
def cleanTxIrq (down : Bool) (workLimit : U32) : Option (TxState × ℕ) :=
  if down then some (s, 0)
  else
    let start : Cursor := ⟨s.ring.nextToClean,
      BitVec.ofNat 32 s.ring.nextToClean - BitVec.ofNat 32 s.ring.count⟩
    (cleanLoop s.ring.count s start workLimit 0).map fun (s, c, packets) =>
      let i := c.i + BitVec.ofNat 32 s.ring.count
      ({ s with ring.nextToClean := i.toNat % 2 ^ 16 }, packets)

end

end Ixgbe
