import Ixgbe.Fdir.Filter
import Ixgbe.Library.SortedTable

/-! # Flow Director rules

Ethtool's rules (`ixgbe_ethtool.c`), sorted by location. The hardware maps hash and location to
match and queue; a command that fails leaves it alone. -/

namespace Ixgbe

open SortedTable

structure FdirFilter where
  filter : AtrInput
  swIdx : U16
  action : U64
  deriving DecidableEq, Repr

def FdirFilter.location (r : FdirFilter) : ℕ := r.swIdx.toNat

inductive FdirPballoc
  | none
  | kb64
  | kb128
  | kb256
  deriving DecidableEq, Repr

def FdirPballoc.rank : FdirPballoc → ℕ
  | .none => 0
  | .kb64 => 1
  | .kb128 => 2
  | .kb256 => 3

def FdirPballoc.locations (p : FdirPballoc) : ℕ := (1024 <<< p.rank) - 2

theorem FdirPballoc.locations_lt (p : FdirPballoc) : p.locations < 2 ^ 16 := by
  cases p <;> decide

structure FdirConfig where
  queues : QueueAdapter
  perfectCapable : Bool
  pballoc : FdirPballoc
  cloudMode : Bool
  running : Bool
  deriving DecidableEq, Repr

/-- Whether memory is available, and what the hardware commands report. -/
structure FdirOutcome where
  alloc : Bool
  write : Bool
  erase : Bool
  deriving DecidableEq, Repr

/-- Match and queue under each `bkt_hash` and `soft_id`. -/
abbrev FdirHw := U16 × U16 → Option (AtrInput × U8)

structure FdirState where
  filterList : List FdirFilter
  filterCount : ℤ
  mask : AtrInput
  hw : FdirHw

section

variable (c : FdirConfig) (a : QueueAdapter) (cookie : U64) (s : FdirState) (r : FdirFilter)

def FdirFilter.key : U16 × U16 := (r.filter.bktHash, r.swIdx)

/-- `ixgbe_fdir_write_perfect_filter_82599`, when it succeeds. -/
def FdirState.write (queue : U8) : FdirState :=
  { s with hw := Function.update s.hw r.key (some (r.filter, queue)) }

/-- `ixgbe_fdir_erase_perfect_filter_82599`, when it succeeds. -/
def FdirState.erase : FdirState :=
  { s with hw := Function.update s.hw r.key none }

def rxClsFlowDisc : U64 := BitVec.allOnes 64

def fdirDropQueue : ℕ := 127

def getFlowSpecRing : U32 := cookie.setWidth 32

def getFlowSpecRingVf : U8 := (cookie >>> 32).setWidth 8

/-- None when the ring does not exist. -/
def ringQueue : Option U8 :=
  let ring := (getFlowSpecRing cookie).toNat
  let vf := (getFlowSpecRingVf cookie).toNat
  if vf = 0 then
    if ring ≥ a.numRxQueues then none else some (a.rxRing.getD ring 0)
  else if vf > a.numVfs ∨ ring ≥ a.numRxQueuesPerPool then none
  else some (BitVec.ofNat 8 ((vf - 1) * a.numRxQueuesPerPool + ring))

def addQueue : Option U8 :=
  if cookie = rxClsFlowDisc then some (BitVec.ofNat 8 fdirDropQueue) else ringQueue a cookie

def restoreQueue (action : U64) : Option U8 :=
  if action = BitVec.ofNat 64 fdirDropQueue then some (BitVec.ofNat 8 fdirDropQueue)
  else ringQueue a action

def flowAction : U64 :=
  if cookie = rxClsFlowDisc then BitVec.ofNat 64 fdirDropQueue else cookie

def redirectStride : ℕ :=
  if a.numRxPools > 1 then 2 else a.numRxQueuesPerPool

/-- For the VF whose interface has the index. -/
def handleRedirectAction (vfIfindex : ℕ → ℕ) (ifindex : ℕ) : Option (U8 × U64) :=
  ((List.range a.numVfs).find? fun vf => vfIfindex vf == ifindex).map fun vf =>
    (BitVec.ofNat 8 (vf * redirectStride a), BitVec.ofNat 64 (vf + 1) <<< 32)

/-- What lies before the place ends with the source's `parent`. -/
def relinkEntry (input : Option FdirFilter) (swIdx : U16) : FdirState × ℤ :=
  let old := holder FdirFilter.location swIdx.toNat s.filterList
  let before := before FdirFilter.location swIdx.toNat s.filterList
  let rest := rest FdirFilter.location swIdx.toNat s.filterList
  let count := s.filterCount - old.toList.length
  match input with
  | none => ({ s with filterList := before ++ rest, filterCount := count },
      if old.isSome then success else eInval)
  | some i => ({ s with filterList := before ++ i :: rest, filterCount := count + 1 }, success)

/-- Without an input it deletes. -/
def updateEthtoolFdirEntry (running erase : Bool) (s : FdirState) (input : Option FdirFilter)
    (swIdx : U16) : FdirState × ℤ :=
  -- the hardware entry of the old rule goes, unless the input has taken it over
  let stale := (holder FdirFilter.location swIdx.toNat s.filterList).filter fun rule =>
    running && input.all fun i => rule.filter.bktHash != i.filter.bktHash
  if stale.isSome && !erase then (s, eInval)
  else relinkEntry (stale.elim s s.erase) input swIdx

def matchEthtoolFdirEntry (input : FdirFilter) : Bool :=
  s.filterList.any fun rule =>
    rule.filter.bktHash == input.filter.bktHash && rule.action == input.action

/-- The mask is saved with the first rule, and must be met by the others. -/
def applyMask (cloudMode : Bool) (s : FdirState) (mask : AtrInput) : FdirState × ℤ :=
  if s.filterList = [] then ({ s with mask := mask }, fdirSetInputMask mask cloudMode)
  else if s.mask ≠ mask then (s, eInval)
  else (s, success)

def checkFlowSpec (alloc : Bool) (fsp : FlowSpec) : Except ℤ (U8 × AtrInput × AtrInput) :=
  if !c.perfectCapable then .error eOpNotSupp
  else match addQueue c.queues fsp.ringCookie with
  | none => .error eInval
  | some queue =>
    if fsp.location.toNat ≥ c.pballoc.locations then .error eInval
    else if !alloc then .error eNoMem
    else match fsp.parse with
    | none => .error eInval
    | some (filter, mask) => .ok (queue, filter, mask)

def FlowSpec.rule (fsp : FlowSpec) (filter mask : AtrInput) : FdirFilter where
  filter := atrComputePerfectHash filter mask
  swIdx := fsp.location.setWidth 16
  action := flowAction fsp.ringCookie

/-- Up to the first command: the rule and its queue. -/
def prepareEntry (alloc : Bool) (s : FdirState) (fsp : FlowSpec) :
    FdirState × Except ℤ (FdirFilter × U8) :=
  match checkFlowSpec c alloc fsp with
  | .error err => (s, .error err)
  | .ok (queue, filter, mask) =>
    let (s, err) := applyMask c.cloudMode s mask
    if err ≠ success then (s, .error eInval)
    else if matchEthtoolFdirEntry s (fsp.rule filter mask) then (s, .error eInval)
    else (s, .ok (fsp.rule filter mask, queue))

def addEthtoolFdirEntry (o : FdirOutcome) (s : FdirState) (fsp : FlowSpec) : FdirState × ℤ :=
  match prepareEntry c o.alloc s fsp with
  | (s, .error err) => (s, err)
  | (s, .ok (input, queue)) =>
    if c.running && !o.write then (s, eInval)
    else
      let s := if c.running then s.write input queue else s
      -- the status of the update is not looked at
      ((updateEthtoolFdirEntry c.running o.erase s (some input) input.swIdx).1, success)

/-- The 32-bit location is passed on as a `u16`. -/
def delEthtoolFdirEntry (o : FdirOutcome) (s : FdirState) (location : U32) : FdirState × ℤ :=
  updateEthtoolFdirEntry c.running o.erase s none (location.setWidth 16)

/-- It compares all 32 bits. -/
def findEthtoolFdirEntry (location : U32) : Option FdirFilter :=
  holder FdirFilter.location location.toNat s.filterList

def restoreEntry : FdirState :=
  match restoreQueue a r.action with
  | none => s
  | some queue => s.write r queue

def fdirFilterRestore : FdirState :=
  s.filterList.foldl (restoreEntry a) s

end

end Ixgbe
