import Ixgbe.Queues.Sriov

/-! # Attaching an XDP program

`ixgbe_set_num_queues` provides an XDP ring for each CPU, up to 64, under RSS alone;
`ixgbe_xdp_setup` reconfigures with the first and last program. -/

namespace Ixgbe

def maxXdpQs : ℕ := 64

/-- The Ethernet header, the checksum and two VLAN tags. -/
def pktHdrPad : ℕ := 14 + 4 + 4 * 2

def nonQVectors : ℕ := 1

def maxFdirIndices : ℕ := 63

structure RxRingAttr where
  rscEnabled : Bool
  bufsz : ℕ
  deriving DecidableEq, Repr

structure Channels where
  combinedCount : ℕ
  rxCount : ℕ
  txCount : ℕ
  otherCount : ℕ
  deriving DecidableEq, Repr

structure XdpAdapter extends QueueAdapter where
  nrCpuIds : ℕ
  numPossibleCpus : ℕ
  xdpLockingKey : Bool
  dcbEnabled : Bool
  running : Bool
  numXdpQueues : ℕ
  rxProg : List Bool
  deriving DecidableEq, Repr

namespace XdpAdapter

section

variable (a : XdpAdapter)

def xdpQueues : ℕ := if a.xdpProg then min maxXdpQs a.nrCpuIds else 0

/-- Only the last of its configurations has XDP queues. -/
def setNumQueues (a : XdpAdapter) : XdpAdapter :=
  { a with
    toQueueAdapter := Ixgbe.setNumQueues a.toQueueAdapter
    numXdpQueues := if a.numTc > 1 ∨ a.vmdqEnabled then 0 else a.xdpQueues }

/-- The receive rings are new and have no program. -/
def initInterruptScheme : XdpAdapter :=
  let a := a.setNumQueues
  { a with
    toQueueAdapter := cacheRingRegister a.toQueueAdapter
    rxProg := List.replicate a.numRxQueues false }

def clearInterruptScheme (a : XdpAdapter) : XdpAdapter :=
  { a with
    toQueueAdapter := Ixgbe.clearInterruptScheme a.toQueueAdapter
    numXdpQueues := 0
    rxProg := [] }

/-- `ixgbe_setup_rx_resources` hands the program to each receive ring. -/
def openRings : XdpAdapter :=
  { a with rxProg := List.replicate a.numRxQueues a.xdpProg }

/-- The old ones are freed by then. -/
def reinit : XdpAdapter :=
  let a := a.initInterruptScheme
  if a.running then a.openRings else a

instance : HasQueues XdpAdapter where
  queues := toQueueAdapter
  withQueues a q := { a with toQueueAdapter := q }
  withTc a tc := { a with numTc := tc, dcbEnabled := decide (tc ≠ 0) }
  clear := clearInterruptScheme
  reinit := reinit

def maxRssIndices : ℕ :=
  match a.mac with
  | .mac82599EB | .macX540 => 16
  | .macX550 | .macX550EMx | .macX550EMa | .macE610 => 63

/-- With MSI-X. The number of CPUs is stored in eight bits. -/
def maxChannels : ℕ :=
  if a.sriovEnabled then a.rss.mask.toNat + 1
  else if a.numTc > 1 then
    if a.numTc > 4 then 8 else 16
  else if a.atrSampleRate ≠ 0 then
    let numcpus := a.numPossibleCpus % 2 ^ 8
    if numcpus > maxFdirIndices then maxFdirIndices else numcpus
  else a.maxRssIndices

def setChannels (ch : Channels) : ℤ × XdpAdapter :=
  let count := ch.combinedCount
  if count = 0 ∨ ch.rxCount ≠ 0 ∨ ch.txCount ≠ 0 then (eInval, a)
  else if ch.otherCount ≠ nonQVectors then (eInval, a)
  else if count > a.maxChannels then (eInval, a)
  else
    let a := { a with fdir.limit := BitVec.ofNat 16 count }
    let count := if count > a.maxRssIndices then a.maxRssIndices else count
    let a := { a with rss.limit := BitVec.ofNat 16 count }
    setupTc a a.numTc

def pciSriovConfigure (numVfs : ℕ) (assigned : Bool) : ℤ × XdpAdapter :=
  if numVfs = 0 then pciSriovDisable a assigned else pciSriovEnable a numVfs assigned

/-- Next to DCB, or if a receive ring merges frames or has too small buffers. -/
def xdpRefused (mtu : ℕ) (attr : ℕ → RxRingAttr) : Bool :=
  a.dcbEnabled || (List.range a.numRxQueues).any fun i =>
    (attr i).rscEnabled || mtu + pktHdrPad > (attr i).bufsz

/-- With the XDP rings whose `xsk_pool` it reads. -/
def xdpSetup (prog : Bool) (mtu : ℕ) (attr : ℕ → RxRingAttr) : ℤ × List ℕ × XdpAdapter :=
  if a.xdpRefused mtu attr then (eInval, [], a)
  else
    let old := a.xdpProg
    let a := { a with xdpProg := prog }
    if prog ≠ old then
      let r := setupTc a a.numTc
      if r.1 ≠ 0 then (eInval, [], { r.2 with xdpProg := old })
      else (0, if prog then List.range r.2.numRxQueues else [], r.2)
    else (0, [], { a with rxProg := List.replicate a.numRxQueues a.xdpProg })

def determineXdpQIdx (cpu : ℕ) : ℕ :=
  if a.xdpLockingKey then cpu % maxXdpQs else cpu

end

end XdpAdapter

inductive XdpEvent
  | xdpSetup (prog : Bool) (mtu : ℕ) (attr : ℕ → RxRingAttr)
  | setChannels (ch : Channels)
  | setupTc (tc : ℕ)
  | sriovConfigure (numVfs : ℕ) (assigned : Bool)

/-- With the XDP rings that the last call read. -/
structure XdpRun where
  adapter : XdpAdapter
  visited : List ℕ

def xdpStep (s : XdpRun) : XdpEvent → XdpRun
  | .xdpSetup prog mtu attr =>
    let r := s.adapter.xdpSetup prog mtu attr
    ⟨r.2.2, r.2.1⟩
  | .setChannels ch => ⟨(s.adapter.setChannels ch).2, []⟩
  | .setupTc tc => ⟨(setupTc s.adapter tc).2, []⟩
  | .sriovConfigure numVfs assigned => ⟨(s.adapter.pciSriovConfigure numVfs assigned).2, []⟩

/-- Those just visited, and the one of each CPU for a frame sent back. -/
def XdpRun.RingsExist (s : XdpRun) : Prop :=
  (∀ i ∈ s.visited, i < s.adapter.numXdpQueues) ∧
    (true ∈ s.adapter.rxProg → ∀ cpu < s.adapter.nrCpuIds,
      s.adapter.determineXdpQIdx cpu < s.adapter.numXdpQueues)

end Ixgbe
