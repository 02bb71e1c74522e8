import Ixgbe.Hw.Basic

/-! # Queues and pools

`ixgbe_set_num_queues` and `ixgbe_cache_ring_register` (`ixgbe_lib.c`), the first pools for the VFs.
No FCoE, several transmit queues. -/

namespace Ixgbe

abbrev U8 := BitVec 8
abbrev U16 := BitVec 16

structure RingFeature where
  limit : U16
  indices : U16
  mask : U16
  offset : U16
  deriving DecidableEq, Repr

structure QueueAdapter where
  mac : MacType
  sriovCapable : Bool
  sriovEnabled : Bool
  vmdqEnabled : Bool
  xdpProg : Bool
  atrSampleRate : ℕ
  devTxQueues : ℕ
  vmdq : RingFeature
  rss : RingFeature
  fdir : RingFeature
  pgTcs : ℕ
  numTc : ℕ
  numVfs : ℕ
  pciVfs : ℕ
  numRxPools : ℕ
  numRxQueuesPerPool : ℕ
  numRxQueues : ℕ
  numTxQueues : ℕ
  rxRing : List U8
  txRing : List U8
  deriving DecidableEq, Repr

section

variable (a : QueueAdapter)

def alignMask (x mask : U16) : U16 := (x + mask) &&& ~~~mask

def minU16 (a b : U16) : U16 := if a.toNat < b.toNat then a else b

def vmdq8qMask : U16 := 0x78

def vmdq4qMask : U16 := 0x7C

def vmdq2qMask : U16 := 0x7E

def maxVmdqIndices : U16 := 64

/-- `none` when it returns false. -/
def setDcbVmdqQueues : Option QueueAdapter :=
  if a.numTc ≤ 1 then none
  else if !a.vmdqEnabled then none
  else
    let total := a.vmdq.limit + a.vmdq.offset
    -- 16 pools with 8 classes, or 32 with 4
    let (total, mask) :=
      if a.numTc > 4 then (minU16 total 16, vmdq8qMask) else (minU16 total 32, vmdq4qMask)
    let pools := total - a.vmdq.offset
    some { a with
      vmdq.indices := pools
      vmdq.mask := mask
      rss.indices := 1
      rss.mask := 0
      numRxPools := pools.toNat
      numRxQueuesPerPool := a.numTc
      numTxQueues := pools.toNat * a.numTc
      numRxQueues := pools.toNat * a.numTc }

def setDcbQueues : Option QueueAdapter :=
  if a.numTc ≤ 1 then none
  else
    let queues := BitVec.ofNat 16 (a.devTxQueues / a.numTc)
    let (queues, mask) : U16 × U16 :=
      if a.numTc > 4 then (minU16 queues 8, 0x7) else (minU16 queues 16, 0xF)
    let queues := minU16 queues a.rss.limit
    some { a with
      rss.indices := queues
      rss.mask := mask
      numTxQueues := queues.toNat * a.numTc
      numRxQueues := queues.toNat * a.numTc }

def setVmdqQueues : Option QueueAdapter :=
  if !a.vmdqEnabled then none
  else
    let total := minU16 maxVmdqIndices (a.vmdq.limit + a.vmdq.offset)
    -- 64 pools with 2 queues, or 32 pools with up to 4
    let (mask, rssMask, queues) : U16 × U16 × U16 :=
      if total.toNat > 32 then (vmdq2qMask, 0x1, minU16 a.rss.limit 2)
      else (vmdq4qMask, 0x3,
        if a.rss.limit.toNat > 3 then 4 else if a.rss.limit.toNat > 1 then 2 else 1)
    let pools := total - a.vmdq.offset
    some { a with
      vmdq.indices := pools
      vmdq.mask := mask
      rss.indices := queues
      rss.mask := rssMask
      numRxPools := pools.toNat
      numRxQueuesPerPool := queues.toNat
      numRxQueues := pools.toNat * queues.toNat
      numTxQueues := pools.toNat * queues.toNat }

def setRssQueues : QueueAdapter :=
  let a := { a with
    rss.indices := a.rss.limit
    rss.mask := if a.mac.rank < MacType.macX550.rank then 0xF else 0x3F }
  let sampled := a.rss.limit.toNat > 1 ∧ a.atrSampleRate ≠ 0
  let a := if sampled then { a with fdir.indices := a.fdir.limit } else a
  let queues := if sampled then a.fdir.limit.toNat else a.rss.limit.toNat
  { a with numRxQueues := queues, numTxQueues := queues }

def setNumQueues : QueueAdapter :=
  let a := { a with
    numRxQueues := 1
    numTxQueues := 1
    numRxPools := 1
    numRxQueuesPerPool := 1 }
  match setDcbVmdqQueues a with
  | some a => a
  | none =>
    match setDcbQueues a with
    | some a => a
    | none =>
      match setVmdqQueues a with
      | some a => a
      | none => setRssQueues a

/-- It moves to the next pool when the part selected by `sel` has reached `per`. -/
def cacheRegIdx (sel mask : U16) (per : ℕ) : ℕ → U16 → List U8
  | 0, _ => []
  | k + 1, idx =>
    let idx := if (idx &&& sel).toNat ≥ per then alignMask idx (~~~mask) else idx
    idx.setWidth 8 :: cacheRegIdx sel mask per k (idx + 1)

def RingFeature.firstRegIdx (vmdq : RingFeature) : U16 := vmdq.offset * alignMask 1 (~~~vmdq.mask)

def cacheRingDcbVmdq : Option QueueAdapter :=
  if a.numTc ≤ 1 then none
  else if !a.vmdqEnabled then none
  else
    let rings := cacheRegIdx (~~~a.vmdq.mask) a.vmdq.mask a.numTc
    some { a with
      rxRing := rings a.numRxQueues a.vmdq.firstRegIdx
      txRing := rings a.numTxQueues a.vmdq.firstRegIdx }

/-- For the transmit and the receive rings. -/
def getFirstRegIdx (numTcs tc : ℕ) : ℕ × ℕ :=
  if numTcs > 4 then
    (if tc < 3 then tc * 32 else if tc < 5 then (tc + 2) * 16 else (tc + 8) * 8, tc * 16)
  else (if tc < 2 then tc * 64 else (tc + 4) * 16, tc * 32)

def cacheRingDcb : Option QueueAdapter :=
  if a.numTc ≤ 1 then none
  else
    let rings (first : ℕ → ℕ) := (List.range a.numTc).flatMap fun tc =>
      (List.range a.rss.indices.toNat).map fun i => BitVec.ofNat 8 (first tc + i)
    some { a with
      txRing := rings fun tc => (getFirstRegIdx a.numTc tc).1
      rxRing := rings fun tc => (getFirstRegIdx a.numTc tc).2 }

/-- The transmit loop selects by the mask of the RSS feature. -/
def cacheRingVmdq : Option QueueAdapter :=
  if !a.vmdqEnabled then none
  else
    some { a with
      rxRing := cacheRegIdx (~~~a.vmdq.mask) a.vmdq.mask a.rss.indices.toNat a.numRxQueues
        a.vmdq.firstRegIdx
      txRing := cacheRegIdx a.rss.mask a.vmdq.mask a.rss.indices.toNat a.numTxQueues
        a.vmdq.firstRegIdx }

def cacheRingRss : QueueAdapter :=
  { a with
    rxRing := (List.range a.numRxQueues).map (BitVec.ofNat 8)
    txRing := (List.range a.numTxQueues).map (BitVec.ofNat 8) }

def cacheRingRegister : QueueAdapter :=
  match cacheRingDcbVmdq a with
  | some a => a
  | none =>
    match cacheRingDcb a with
    | some a => a
    | none =>
      match cacheRingVmdq a with
      | some a => a
      | none => cacheRingRss a

/-- With enough vectors and memory. -/
def initInterruptScheme : QueueAdapter := cacheRingRegister (setNumQueues a)

def clearInterruptScheme : QueueAdapter :=
  { a with numTxQueues := 0, numRxQueues := 0, rxRing := [], txRing := [] }

end

end Ixgbe
