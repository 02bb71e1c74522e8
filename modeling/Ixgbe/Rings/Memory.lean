import Ixgbe.Hw.Basic

/-! # The memory of the rings

`ixgbe_open` allocates, `ixgbe_set_ringparam` replaces through a temporary array. What succeeds is
chosen. -/

namespace Ixgbe

/-- Its number and its size. -/
abbrev Block := ℕ × ℕ

/-- The latest first. -/
structure RingMem where
  allocs : List Block
  frees : List Block

def RingMem.alloc (m : RingMem) (ok : Bool) (size : ℕ) : Option Block × RingMem :=
  if ok then
    (some (m.allocs.length, size), { m with allocs := (m.allocs.length, size) :: m.allocs })
  else (none, m)

def RingMem.allocNode (m : RingMem) (node anywhere : Bool) (size : ℕ) : Option Block × RingMem :=
  match m.alloc node size with
  | (some b, m) => (some b, m)
  | (none, m) => m.alloc anywhere size

def RingMem.vfree (m : RingMem) : Option Block → RingMem
  | some b => { m with frees := b :: m.frees }
  | none => m

def RingMem.dmaFree (m : RingMem) (b : Block) (size : ℕ) : RingMem :=
  { m with frees := (b.1, size) :: m.frees }

def alignUp (x a : ℕ) : ℕ := (x + a - 1) / a * a

/-- `rxq` says that `xdp_rxq` is registered. -/
structure MemRing where
  count : ℕ
  size : ℕ
  bufferInfo : Option Block
  desc : Option Block
  rxq : Bool
  deriving DecidableEq, Repr

/-- The sizes of `ixgbe_tx_buffer`, `ixgbe_rx_buffer` and `ixgbe_ring`. -/
structure RingSizes where
  txBuffer : ℕ
  rxBuffer : ℕ
  ring : ℕ

structure RingEnv where
  bufNode : Bool
  buf : Bool
  descNode : Bool
  desc : Bool
  rxq : Bool
  deriving DecidableEq, Repr

def MemRing.giveUp (r : MemRing) (m : RingMem) : Bool × MemRing × RingMem :=
  (false, { r with bufferInfo := none }, m.vfree r.bufferInfo)

def setupMemory (bufSize : ℕ) (env : RingEnv) (r : MemRing) (m : RingMem) :
    Bool × MemRing × RingMem :=
  let (b, m) := m.allocNode env.bufNode env.buf (bufSize * r.count)
  let r := { r with bufferInfo := b }
  if b = none then r.giveUp m
  else
    -- round up to nearest 4K
    let size := alignUp (r.count * 16) 4096
    let (d, m) := m.allocNode env.descNode env.desc size
    let r := { r with size := size, desc := d }
    if d = none then r.giveUp m else (true, r, m)

def setupResources (rx : Bool) (bufSize : ℕ) (env : RingEnv) (r : MemRing) (m : RingMem) :
    Bool × MemRing × RingMem :=
  match setupMemory bufSize env r m with
  | (false, r, m) => (false, r, m)
  | (true, r, m) =>
    if rx then
      -- the error path of the registration is that of the allocations
      if env.rxq then (true, { r with rxq := true }, m) else r.giveUp m
    else (true, r, m)

def setupTxResources (sz : RingSizes) : RingEnv → MemRing → RingMem → Bool × MemRing × RingMem :=
  setupResources false sz.txBuffer

def setupRxResources (sz : RingSizes) : RingEnv → MemRing → RingMem → Bool × MemRing × RingMem :=
  setupResources true sz.rxBuffer

/-- Of a receive ring also the registration is undone. -/
def freeResources (rx : Bool) (r : MemRing) (m : RingMem) : MemRing × RingMem :=
  let m := m.vfree r.bufferInfo
  let r := { r with bufferInfo := none, rxq := if rx then false else r.rxq }
  match r.desc with
  -- if not set, then don't free
  | none => (r, m)
  | some d => ({ r with desc := none }, m.dmaFree d r.size)

def freeTxResources : MemRing → RingMem → MemRing × RingMem := freeResources false

def freeRxResources : MemRing → RingMem → MemRing × RingMem := freeResources true

def freeRings (free : MemRing → RingMem → MemRing × RingMem) :
    List MemRing → RingMem → List MemRing × RingMem
  | [], m => ([], m)
  | r :: rs, m =>
    let (r, m) := free r m
    let (rs, m) := freeRings free rs m
    (r :: rs, m)

/-- `done` are those set up, the latest first. -/
def setupRings (setup : RingEnv → MemRing → RingMem → Bool × MemRing × RingMem)
    (free : MemRing → RingMem → MemRing × RingMem) :
    (ℕ → RingEnv) → List MemRing → List MemRing → RingMem → Bool × List MemRing × RingMem
  | _, done, [], m => (true, done.reverse, m)
  | env, done, r :: rs, m =>
    match setup (env 0) r m with
    | (true, r, m) => setupRings setup free (fun i => env (i + 1)) (r :: done) rs m
    | (false, r, m) =>
      let (done, m) := freeRings free done m
      (false, done.reverse ++ r :: rs, m)

/-- The rings, and the numbers of descriptors that are configured. -/
structure RingAdapter where
  tx : List MemRing
  xdp : List MemRing
  rx : List MemRing
  txRingCount : ℕ
  xdpRingCount : ℕ
  rxRingCount : ℕ

section

variable (sz : RingSizes) (env : ℕ → RingEnv) (a : RingAdapter)

def RingAdapter.setTxXdp (rs : List MemRing) : RingAdapter :=
  { a with tx := rs.take a.tx.length, xdp := rs.drop a.tx.length }

def setupAllTxResources (m : RingMem) : Bool × RingAdapter × RingMem :=
  let (ok, rs, m) := setupRings (setupTxResources sz) freeTxResources env [] (a.tx ++ a.xdp) m
  (ok, a.setTxXdp rs, m)

/-- `fcoe` is the result of `ixgbe_setup_fcoe_ddp_resources`. -/
def setupAllRxResources (fcoe : ℤ) (a : RingAdapter) (m : RingMem) : ℤ × RingAdapter × RingMem :=
  match setupRings (setupRxResources sz) freeRxResources env [] a.rx m with
  | (false, rs, m) => (eNoMem, { a with rx := rs }, m)
  | (true, rs, m) =>
    if fcoe = 0 then (0, { a with rx := rs }, m)
    else
      let (freed, m) := freeRings freeRxResources rs.reverse m
      (fcoe, { a with rx := freed.reverse }, m)

def freeXdpRings : List MemRing → RingMem → List MemRing × RingMem
  | [], m => ([], m)
  | r :: rs, m =>
    let (r, m) := if r.desc.isSome then freeTxResources r m else (r, m)
    let (rs, m) := freeXdpRings rs m
    (r :: rs, m)

def freeAllTxResources (m : RingMem) : RingAdapter × RingMem :=
  let (tx, m) := freeRings freeTxResources a.tx m
  let (xdp, m) := freeXdpRings a.xdp m
  ({ a with tx := tx, xdp := xdp }, m)

def freeAllRxResources (m : RingMem) : RingAdapter × RingMem :=
  let (rx, m) := freeRings freeRxResources a.rx m
  ({ a with rx := rx }, m)

def eBusy : ℤ := -16

/-- The environment of the XDP rings follows that of the transmit rings. -/
structure OpenEnv where
  testing : Bool
  tx : ℕ → RingEnv
  rx : ℕ → RingEnv
  fcoe : ℤ
  irq : ℤ
  realTx : ℤ
  realRx : ℤ

def ixgbeOpen (env : OpenEnv) (a : RingAdapter) (m : RingMem) : ℤ × RingAdapter × RingMem :=
  -- disallow open during test
  if env.testing then (eBusy, a, m)
  else
    match setupAllTxResources sz env.tx a m with
    | (false, a, m) => (eNoMem, a, m)
    | (true, a, m) =>
      let (err, a, m) := setupAllRxResources sz env.rx env.fcoe a m
      if err ≠ 0 then (err, freeAllTxResources a m)
      else
        let err :=
          if env.irq ≠ 0 then env.irq else if env.realTx ≠ 0 then env.realTx else env.realRx
        if err ≠ 0 then
          let (a, m) := freeAllRxResources a m
          (err, freeAllTxResources a m)
        else (0, a, m)

structure Ringparam where
  rxPending : ℕ
  rxMiniPending : ℕ
  rxJumboPending : ℕ
  txPending : ℕ
  deriving DecidableEq, Repr

/-- Whether a pool is attached, the interface runs, and the array can be allocated. -/
structure RingparamEnv where
  xsk : Bool
  running : Bool
  temp : Bool
  tx : ℕ → RingEnv
  rx : ℕ → RingEnv

/-- The copies are set up, and only then the old memory is freed. -/
def replaceRings (setup : RingEnv → MemRing → RingMem → Bool × MemRing × RingMem)
    (free : MemRing → RingMem → MemRing × RingMem) (env : ℕ → RingEnv)
    (copy : MemRing → MemRing) (rs : List MemRing) (m : RingMem) : Bool × List MemRing × RingMem :=
  match setupRings setup free env [] (rs.map copy) m with
  | (false, _, m) => (false, rs, m)
  | (true, new, m) => (true, new, (freeRings free rs m).2)

def replaceTxRings (newCount : ℕ) (a : RingAdapter) (m : RingMem) : Bool × RingAdapter × RingMem :=
  if newCount = a.txRingCount then (true, a, m)
  else
    let copy := fun r : MemRing => { r with count := newCount }
    match replaceRings (setupTxResources sz) freeTxResources env copy (a.tx ++ a.xdp) m with
    | (false, _, m) => (false, a, m)
    | (true, rs, m) => (true, { a.setTxXdp rs with txRingCount := newCount }, m)

def replaceRxRings (newCount : ℕ) (a : RingAdapter) (m : RingMem) : Bool × RingAdapter × RingMem :=
  if newCount = a.rxRingCount then (true, a, m)
  else
    -- clear copied XDP RX-queue info
    let copy := fun r : MemRing => { r with count := newCount, rxq := false }
    match replaceRings (setupRxResources sz) freeRxResources env copy a.rx m with
    | (false, _, m) => (false, a, m)
    | (true, rs, m) => (true, { a with rx := rs, rxRingCount := newCount }, m)

/-- `IXGBE_MIN_NUM_DESCRIPTORS` and `IXGBE_MAX_NUM_DESCRIPTORS`. -/
def Ringparam.InRange (p : Ringparam) : Prop :=
  64 ≤ p.txPending ∧ p.txPending ≤ 4096 ∧ 64 ≤ p.rxPending ∧ p.rxPending ≤ 4096

instance (p : Ringparam) : Decidable p.InRange :=
  inferInstanceAs (Decidable (64 ≤ p.txPending ∧ p.txPending ≤ 4096 ∧ 64 ≤ p.rxPending ∧
    p.rxPending ≤ 4096))

/-- A multiple of `IXGBE_REQ_TX_DESCRIPTOR_MULTIPLE`. -/
def Ringparam.newTxCount (p : Ringparam) : ℕ := alignUp p.txPending 8

/-- A multiple of `IXGBE_REQ_RX_DESCRIPTOR_MULTIPLE`. -/
def Ringparam.newRxCount (p : Ringparam) : ℕ := alignUp p.rxPending 8

def RingAdapter.setCounts (p : Ringparam) : RingAdapter where
  tx := a.tx.map fun r => { r with count := p.newTxCount }
  xdp := a.xdp.map fun r => { r with count := p.newTxCount }
  rx := a.rx.map fun r => { r with count := p.newRxCount }
  txRingCount := p.newTxCount
  xdpRingCount := p.newTxCount
  rxRingCount := p.newRxCount

def replaceAll (env : RingparamEnv) (p : Ringparam) (a : RingAdapter) (m : RingMem) :
    ℤ × RingAdapter × RingMem :=
  match replaceTxRings sz env.tx p.newTxCount a m with
  | (false, a, m) => (eNoMem, a, m)
  | (true, a, m) =>
    match replaceRxRings sz env.rx p.newRxCount a m with
    | (false, a, m) => (eNoMem, a, m)
    | (true, a, m) => (0, a, m)

def setRingparam (env : RingparamEnv) (p : Ringparam) (a : RingAdapter) (m : RingMem) :
    ℤ × RingAdapter × RingMem :=
  if p.rxMiniPending ≠ 0 ∨ p.rxJumboPending ≠ 0 then (eInval, a, m)
  else if ¬ p.InRange then (eInval, a, m)
  -- nothing to do
  else if p.newTxCount = a.txRingCount ∧ p.newRxCount = a.rxRingCount then (0, a, m)
  else if env.xsk then (eBusy, a, m)
  else if !env.running then (0, a.setCounts p, m)
  else
    match m.alloc env.temp (max (a.tx.length + a.xdp.length) a.rx.length * sz.ring) with
    | (none, m) => (eNoMem, a, m)
    | (some temp, m) =>
      let (err, a, m) := replaceAll sz env p a m
      (err, a, m.vfree (some temp))

end

end Ixgbe
