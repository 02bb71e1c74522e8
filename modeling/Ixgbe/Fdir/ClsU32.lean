import Ixgbe.Fdir.Rules

/-! # Rules from the u32 classifier

`tc` filters form a graph (`ixgbe_main.c`): links lead to child tables. The state has for each rule
the table it came through. -/

namespace Ixgbe

open Function

def maxLinkHandle : ℕ := 10

def maxHwEntries : ℕ := 2045

def rootUhtid : ℕ := 0x800

def errFdirCmdIncomplete : ℤ := -38

inductive MatPrgm
  | sip
  | dip
  | ports
  deriving DecidableEq, Repr

def MatPrgm.write (p : MatPrgm) (input : AtrInput) (val : U32) : AtrInput :=
  match p with
  | .sip => { input with srcIp := setFirstWord input.srcIp val }
  | .dip => { input with dstIp := setFirstWord input.dstIp val }
  | .ports => { input with srcPort := val.extractLsb' 0 16, dstPort := val.extractLsb' 16 16 }

structure MatField where
  off : U32
  val : MatPrgm
  type : U8
  deriving DecidableEq, Repr

def ipv4Fields : List MatField := [⟨12, .sip, 0x0⟩, ⟨16, .dip, 0x0⟩]

def tcpFields : List MatField := [⟨0, .ports, 0x2⟩]

def udpFields : List MatField := [⟨0, .ports, 0x1⟩]

structure Nexthdr where
  o : ℕ
  s : ℕ
  m : ℕ
  off : U32
  val : U32
  mask : U32
  jump : List MatField
  deriving DecidableEq, Repr

def ipv4Jumps : List Nexthdr :=
  [⟨0, 6, 0xf, 8, 0x600, 0xff00, tcpFields⟩, ⟨0, 6, 0xf, 8, 0x1100, 0xff00, udpFields⟩]

structure JumpTable where
  mat : List MatField
  input : Option AtrInput
  mask : Option AtrInput
  linkHdl : U32
  childLocMap : ℕ → Bool

structure U32Key where
  off : U32
  val : U32
  mask : U32
  deriving DecidableEq, Repr

/-- A redirect may have lost its device. -/
inductive TcAction
  | shot
  | redirect (ifindex : Option ℕ)
  | other
  deriving DecidableEq, Repr

structure Knode where
  protocol : U16
  handle : U32
  linkHandle : U32
  keys : List U32Key
  offoff : ℕ
  offshift : ℕ
  offmask : ℕ
  exts : List TcAction
  deriving DecidableEq, Repr

def userHtid (handle : U32) : ℕ := (handle >>> 20).toNat

def handleLoc (handle : U32) : ℕ := (handle &&& 0xfffff).toNat

/-- The part of `struct ixgbe_adapter` that the classifier uses. -/
structure ClsState where
  fdir : FdirState
  jumpTables : ℕ → Option JumpTable
  tables : U64
  /-- The table through which the rule at a location was installed. -/
  installedVia : ℕ → ℕ

/-- A table that does not exist has no bits. -/
def ClsState.childLoc (s : ClsState) (t j : ℕ) : Bool := (s.jumpTables t).any fun jump =>
  jump.childLocMap j

def ClsState.setChildLoc (s : ClsState) (t j : ℕ) (b : Bool) : ClsState :=
  { s with jumpTables := update s.jumpTables t ((s.jumpTables t).map fun jump =>
      { jump with childLocMap := update jump.childLocMap j b }) }

/-- With whether a field of the table and the field of the jump were found. -/
def buildInputKey (fields : List MatField) (nexthdr : Option Nexthdr)
    (x : AtrInput × AtrInput × Bool × Bool) (k : U32Key) : AtrInput × AtrInput × Bool × Bool :=
  let (input, mask, entry, jump) := x
  let jump := jump || nexthdr.any fun n => n.off == k.off && n.val == k.val && n.mask == k.mask
  match fields.find? fun f => f.off == k.off with
  | some f =>
    let input := f.val.write input k.val
    ({ input with flowType := input.flowType ||| f.type }, f.val.write mask k.mask, true, jump)
  | none => (input, mask, entry, jump)

/-- False when it fails, which leaves the mask's type. -/
def clsu32BuildInput (keys : List U32Key) (fields : List MatField) (nexthdr : Option Nexthdr)
    (input mask : AtrInput) : Bool × AtrInput × AtrInput :=
  let (input, mask, entry, jump) :=
    keys.foldl (buildInputKey fields nexthdr) (input, mask, false, false)
  if nexthdr.isSome && !jump then (false, input, mask)
  else if !entry then (true, input, mask)
  else (true, input, { mask with flowType :=
    if input.flowType = 0 then atrL4typeIpv6Mask else atrL4typeIpv6Mask ||| atrL4typeMask })

/-- The first action decides. -/
def parseTcActions (a : QueueAdapter) (vfIfindex : ℕ → ℕ) : List TcAction → Option (U8 × U64)
  | [] => none
  | .shot :: _ => some (BitVec.ofNat 8 fdirDropQueue, BitVec.ofNat 64 fdirDropQueue)
  | .redirect none :: _ => none
  | .redirect (some ifindex) :: _ => handleRedirectAction a vfIfindex ifindex
  | .other :: _ => none

/-- The configuration, and the interfaces of the VFs. -/
structure ClsConfig extends FdirConfig where
  vfIfindex : ℕ → ℕ

section

variable (c : ClsConfig) (s : ClsState) (k : Knode)

def ClsState.fieldPtr (uhtid : ℕ) : Option (List MatField) :=
  if uhtid = rootUhtid then (s.jumpTables 0).map JumpTable.mat
  else if uhtid ≥ maxLinkHandle then none
  else (s.jumpTables uhtid).map JumpTable.mat

/-- The first checks: the protocol, the location and the table. -/
def checkKnode : Option (List MatField) :=
  -- `htons(ETH_P_IP)`
  if k.protocol ≠ 0x0008 then none
  else if handleLoc k.handle ≥ c.pballoc.locations then none
  else s.fieldPtr (userHtid k.handle)

/-- What a failed attempt has written stays for the next one. -/
def findJump (k : Knode) (fields : List MatField) :
    List Nexthdr → AtrInput → AtrInput → Option (List MatField × AtrInput × AtrInput)
  | [], _, _ => none
  | n :: rest, input, mask =>
    if n.o ≠ k.offoff ∨ n.s ≠ k.offshift ∨ n.m ≠ k.offmask then none
    else match clsu32BuildInput k.keys fields (some n) input mask with
    | (true, input, mask) => some (n.jump, input, mask)
    | (false, input, mask) => findJump k fields rest input mask

def configureLink (alloc : Bool) (s : ClsState) (k : Knode) (fields : List MatField) :
    ClsState × ℤ :=
  let link := userHtid k.linkHandle
  if link ≥ maxLinkHandle then (s, eInval)
  else if !s.tables.getLsbD (link - 1) then (s, eInval)
  else if (s.jumpTables link).any fun jump => jump.linkHdl != 0 then (s, eInval)
  else if !alloc then (s, eNoMem)
  else match findJump k fields ipv4Jumps AtrInput.zero AtrInput.zero with
  | none => (s, eInval)
  | some (mat, input, mask) =>
    ({ s with jumpTables := update s.jumpTables link (some
        ⟨mat, some input, some mask, k.handle, fun _ => false⟩) }, success)

def ClsState.childTable : Option JumpTable :=
  if userHtid k.handle = rootUhtid then none else s.jumpTables (userHtid k.handle)

/-- The location is recorded in one of the child tables. -/
def ClsState.locTaken : Bool :=
  (s.childTable k).isSome && (List.range' 1 (maxLinkHandle - 1)).any fun t =>
    s.childLoc t (handleLoc k.handle - 1)

/-- With what the link to its table contributes. -/
def ClsState.knodeInput (fields : List MatField) : AtrInput × AtrInput :=
  (clsu32BuildInput k.keys fields none
    (((s.childTable k).bind JumpTable.input).getD AtrInput.zero)
    (((s.childTable k).bind JumpTable.mask).getD AtrInput.zero)).2

/-- Up to the write: the rule and its queue. -/
def prepareKnode (alloc : Bool) (s : ClsState) (k : Knode) (fields : List MatField) :
    FdirState × Except ℤ (FdirFilter × U8) :=
  if !alloc then (s.fdir, .error eNoMem)
  else if s.locTaken k then (s.fdir, .error eInval)
  else match parseTcActions c.queues c.vfIfindex k.exts with
  | none => (s.fdir, .error eInval)
  | some (queue, action) =>
    let (input, mask) := s.knodeInput k fields
    let (fdir, err) := applyMask c.cloudMode s.fdir mask
    if err ≠ success then (fdir, .error err)
    else (fdir, .ok ({
      filter := atrComputePerfectHash input mask
      swIdx := BitVec.ofNat 16 (handleLoc k.handle)
      action := action }, queue))

def installKnode (o : FdirOutcome) (s : ClsState) (k : Knode) (r : FdirFilter) (queue : U8) :
    ClsState :=
  if o.write then
    let (fdir, ret) :=
      updateEthtoolFdirEntry c.running o.erase (s.fdir.write r queue) (some r) r.swIdx
    { s with
      fdir := fdir
      installedVia := if ret = success then
        update s.installedVia (handleLoc k.handle) (userHtid k.handle)
        else s.installedVia }
  else s

def configureClsu32 (o : FdirOutcome) (s : ClsState) (k : Knode) : ClsState × ℤ :=
  match checkKnode c s k with
  | none => (s, eInval)
  | some fields =>
    if userHtid k.linkHandle ≠ 0 then configureLink o.alloc s k fields
    else match prepareKnode c o.alloc s k fields with
    | (fdir, .error err) => ({ s with fdir := fdir }, err)
    | (fdir, .ok (r, queue)) =>
      let s := installKnode c o { s with fdir := fdir } k r queue
      -- the location is recorded whatever the hardware reported
      (if userHtid k.handle ≠ rootUhtid then
        s.setChildLoc (userHtid k.handle) (handleLoc k.handle - 1) true else s,
        if o.write then success else errFdirCmdIncomplete)

def deleteChild (running : Bool) (erase : ℕ → Bool) (t : ℕ) (x : ClsState × ℤ) (j : ℕ) :
    ClsState × ℤ :=
  if x.1.childLoc t j then
    let (fdir, err) :=
      updateEthtoolFdirEntry running (erase (j + 1)) x.1.fdir none (BitVec.ofNat 16 (j + 1))
    ({ x.1 with fdir := fdir }.setChildLoc t j false, err)
  else x

/-- The filters of the child table go, and then the table. -/
def deleteLink (running : Bool) (erase : ℕ → Bool) (s : ClsState) (t : ℕ) : ClsState × ℤ :=
  let x := (List.range maxHwEntries).foldl (deleteChild running erase t) (s, 0)
  ({ x.1 with jumpTables := update x.1.jumpTables t none }, x.2)

def ClsState.findLink (handle : U32) : Option ℕ :=
  (List.range' 1 (maxLinkHandle - 1)).find? fun t =>
    (s.jumpTables t).any fun jump => jump.linkHdl == handle

/-- `erase` is the outcome of the erase command at each location. -/
def deleteClsu32 (running : Bool) (erase : ℕ → Bool) (s : ClsState) (handle : U32) : ClsState × ℤ :=
  let uhtid := userHtid handle
  let loc := handleLoc handle
  if loc > maxHwEntries then (s, eInval)
  else if uhtid ≠ rootUhtid ∧ uhtid ≥ maxLinkHandle then (s, eInval)
  else if uhtid ≠ rootUhtid ∧ s.childLoc uhtid (loc - 1) = false then (s, eInval)
  else
    let s := if uhtid ≠ rootUhtid then s.setChildLoc uhtid (loc - 1) false else s
    match s.findLink handle with
    | some t => deleteLink running erase s t
    | none =>
      let (fdir, err) :=
        updateEthtoolFdirEntry running (erase loc) s.fdir none (BitVec.ofNat 16 loc)
      ({ s with fdir := fdir }, err)

def addHnode (handle : U32) (divisor : ℕ) : ClsState × ℤ :=
  if userHtid handle ≥ maxLinkHandle then (s, eInval)
  else if divisor > 0 then (s, eInval)
  else ({ s with tables := s.tables ||| ((1 : U64) <<< (userHtid handle - 1)) }, success)

def delHnode (handle : U32) : ClsState × ℤ :=
  if userHtid handle ≥ maxLinkHandle then (s, eInval)
  else ({ s with tables := s.tables &&& ~~~((1 : U64) <<< (userHtid handle - 1)) }, success)

end

end Ixgbe
