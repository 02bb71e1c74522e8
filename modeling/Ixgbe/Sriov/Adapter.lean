import Ixgbe.Mac.Table
import Ixgbe.Vlan.Ops

/-! # The adapter with SR-IOV on

What `struct ixgbe_adapter` keeps about each VF, the filter tables, and the registers the SR-IOV
routines write. -/

namespace Ixgbe

inductive MboxApi
  | api10
  | api20
  | api11
  | api12
  | api13
  | api14
  | api15
  | api16
  | api17
  deriving DecidableEq, Repr

inductive XcastMode
  | none
  | multi
  | allmulti
  | promisc
  deriving DecidableEq, Repr

def XcastMode.value : XcastMode → ℕ
  | .none => 0
  | .multi => 1
  | .allmulti => 2
  | .promisc => 3

/-- `pf_vlan` is a VLAN id: its only writer checks the range. -/
structure VfDataStorage where
  vfMacAddresses : MacAddr
  vfMcHashes : ℕ → BitVec 16
  numVfMcHashes : ℕ
  clearToSend : Bool
  pfSetMac : Bool
  pfVlan : Fin 4096
  pfQos : ℕ
  linkEnable : Bool
  spoofchkEnabled : Bool
  rssQueryEnabled : Bool
  trusted : Bool
  xcastMode : XcastMode
  vfApi : MboxApi

/-- The owner is `none` where the source has `-1`. -/
structure VfMacvlans where
  vf : Option ℕ
  free : Bool
  isMacvlan : Bool
  vfMacvlan : MacAddr
  deriving DecidableEq, Repr

structure HwAddr where
  addr : MacAddr
  refcount : ℤ
  syncCnt : ℤ
  deriving DecidableEq, Repr

structure NetDev where
  running : Bool
  promisc : Bool
  allmulti : Bool
  ctagFilter : Bool
  ctagRx : Bool
  uc : List HwAddr
  mc : List MacAddr
  mtu : ℕ
  fcoeMtu : Bool
  numTc : ℕ
  prioTcMap : ℕ → ℕ

/-- Also its shadow copy and the counters of `hw->addr_ctrl`. -/
structure McState where
  mta : ℕ → U32
  mtaShadow : ℕ → U32
  mtaInUse : ℕ
  mcstctrl : U32

/-- Registers with one bit or one word per VF or queue are arrays. -/
structure HwRegs where
  fctrl : U32
  maxfrs : U32
  rxdctl : ℕ → U32
  vmvir : ℕ → U32
  vfre : ℕ → U32
  vfte : ℕ → U32
  vmecm : ℕ → U32
  /-- Written with the queue's index in the value: one word per queue. -/
  qde : ℕ → U32
  pvftxdctl : ℕ → U32
  pvftdwbal : ℕ → U32
  pvftdwbah : ℕ → U32
  pfvfspoof : ℕ → U32

/-- With every message handed to `ixgbe_write_mbx`, latest first. -/
structure Mbx where
  mem : ℕ → ℕ → U32
  sent : List (ℕ × List U32)

structure PfInfo where
  hwAddr : MacAddr
  linkSpeed : U32
  linkUp : Bool
  defaultUp : ℕ
  rssIndirTbl : ℕ → BitVec 8
  rssKey : ℕ → U32
  dcbEnabled : Bool
  rxRings : List ℕ

structure AdapterCfg extends SriovCfg, RarCfg where
  macType : MacType
  mcFilterType : ℕ
  vmdqMask : U32

/-- `__ALIGN_MASK(1, ~vmdq->mask)`: the queues of each pool. -/
def AdapterCfg.qPerPool (cfg : AdapterCfg) : ℕ :=
  ((1 + ~~~cfg.vmdqMask) &&& ~~~(~~~cfg.vmdqMask)).toNat

def maxPfMacvlans : ℕ := 15

/-- As `ixgbe_alloc_vf_macvlans` allocates it. -/
def AdapterCfg.numVfMacvlans (cfg : AdapterCfg) : ℕ :=
  cfg.numRarEntries - (maxPfMacvlans + 1 + cfg.numVfs)

/-- `vfinfo` is read below `num_vfs` and `mvs` below `numVfMacvlans`. -/
structure Adapter where
  vlan : VlanState
  mac : MacFilter
  vfinfo : ℕ → VfDataStorage
  mvs : ℕ → VfMacvlans
  vmolr : ℕ → U32
  mcast : McState
  regs : HwRegs
  mbx : Mbx
  netdev : NetDev
  pf : PfInfo

def Adapter.modifyVf (a : Adapter) (vf : ℕ) (f : VfDataStorage → VfDataStorage) : Adapter :=
  { a with vfinfo := Function.update a.vfinfo vf (f (a.vfinfo vf)) }

section

variable (a : Adapter)

@[simp] theorem Adapter.modifyVf_self (vf : ℕ) (f : VfDataStorage → VfDataStorage) :
    (a.modifyVf vf f).vfinfo vf = f (a.vfinfo vf) := Function.update_self ..

@[simp] theorem Adapter.modifyVf_of_ne {vf w : ℕ} (h : w ≠ vf)
    (f : VfDataStorage → VfDataStorage) : (a.modifyVf vf f).vfinfo w = a.vfinfo w :=
  Function.update_of_ne h ..

def Adapter.writeVmolr (a : Adapter) (pool : ℕ) (x : U32) : Adapter :=
  { a with vmolr := Function.update a.vmolr pool x }

@[simp] theorem Adapter.writeVmolr_self (pool : ℕ) (x : U32) :
    (a.writeVmolr pool x).vmolr pool = x := Function.update_self ..

@[simp] theorem Adapter.writeVmolr_of_ne {pool p : ℕ} (h : p ≠ pool) (x : U32) :
    (a.writeVmolr pool x).vmolr p = a.vmolr p := Function.update_of_ne h ..

@[simp] theorem Adapter.writeVmolr_vfinfo (pool : ℕ) (x : U32) :
    (a.writeVmolr pool x).vfinfo = a.vfinfo := rfl

@[simp] theorem Adapter.modifyVf_vmolr (vf : ℕ) (f : VfDataStorage → VfDataStorage) :
    (a.modifyVf vf f).vmolr = a.vmolr := rfl

end

def vmolrUpe : U32 := shl1 22

def vmolrVpe : U32 := shl1 23

def vmolrAupe : U32 := shl1 24

def vmolrRompe : U32 := shl1 25

def vmolrRope : U32 := shl1 26

def vmolrBam : U32 := shl1 27

def vmolrMpe : U32 := shl1 28

end Ixgbe
