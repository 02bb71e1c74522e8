import Ixgbe.Queues.Config

/-! # Flow Director filters

Match and hash (`ixgbe_82599.c`), and ethtool requests (`ixgbe_ethtool.c`). Fields are as a
little-endian host reads them. -/

namespace Ixgbe

abbrev U64 := BitVec 64

def ntohs (x : U16) : U16 := (x >>> 8) ||| (x <<< 8)

def ntohl (x : U32) : U32 :=
  (x >>> 24) ||| ((x &&& 0x00FF0000) >>> 8) ||| ((x &&& 0x0000FF00) <<< 8) ||| (x <<< 24)

structure AtrInput where
  vmPool : U8
  flowType : U8
  vlanId : U16
  dstIp : Vector U32 4
  srcIp : Vector U32 4
  innerMac : MacAddr
  tunnelType : U16
  tniVni : U32
  srcPort : U16
  dstPort : U16
  flexBytes : U16
  bktHash : U16
  deriving DecidableEq, Repr

def AtrInput.zero : AtrInput where
  vmPool := 0
  flowType := 0
  vlanId := 0
  dstIp := Vector.replicate 4 0
  srcIp := Vector.replicate 4 0
  innerMac := 0
  tunnelType := 0
  tniVni := 0
  srcPort := 0
  dstPort := 0
  flexBytes := 0
  bktHash := 0

def setFirstWord (ip : Vector U32 4) (w : U32) : Vector U32 4 := ip.set 0 w

/-- The other view of the union, `dword_stream`. -/
def AtrInput.dwordStream (a : AtrInput) : List U32 :=
  (a.vlanId ++ a.flowType ++ a.vmPool) :: a.dstIp.toList ++ a.srcIp.toList ++
    [a.innerMac.extractLsb' 0 32, a.tunnelType ++ a.innerMac.extractLsb' 32 16, a.tniVni,
      a.dstPort ++ a.srcPort, a.bktHash ++ a.flexBytes]

/-- Field by field. -/
def AtrInput.zip (f : ∀ n, BitVec n → BitVec n → BitVec n) (a b : AtrInput) : AtrInput where
  vmPool := f _ a.vmPool b.vmPool
  flowType := f _ a.flowType b.flowType
  vlanId := f _ a.vlanId b.vlanId
  dstIp := Vector.zipWith (f _) a.dstIp b.dstIp
  srcIp := Vector.zipWith (f _) a.srcIp b.srcIp
  innerMac := f _ a.innerMac b.innerMac
  tunnelType := f _ a.tunnelType b.tunnelType
  tniVni := f _ a.tniVni b.tniVni
  srcPort := f _ a.srcPort b.srcPort
  dstPort := f _ a.dstPort b.dstPort
  flexBytes := f _ a.flexBytes b.flexBytes
  bktHash := f _ a.bktHash b.bktHash

def AtrInput.and (a m : AtrInput) : AtrInput := a.zip (fun _ => (· &&& ·)) m

/-- An operation on each bit is one on the dwords. -/
theorem AtrInput.dwordStream_zip {f : ∀ n, BitVec n → BitVec n → BitVec n}
    (happend : ∀ {n m} (x z : BitVec n) (y w : BitVec m),
      f _ (x ++ y) (z ++ w) = f _ x z ++ f _ y w)
    (hextract : ∀ {n} (x y : BitVec n) (i j : ℕ),
      f _ (x.extractLsb' i j) (y.extractLsb' i j) = (f _ x y).extractLsb' i j)
    (a b : AtrInput) :
    (a.zip f b).dwordStream = List.zipWith (f 32) a.dwordStream b.dwordStream := by
  have hlen : ∀ v w : Vector U32 4, v.toList.length = w.toList.length := fun v w => by simp
  -- the two ways in which a dword is made of smaller fields
  have hhalves : ∀ x y z w : U16, f 32 (x ++ y) (z ++ w) = f _ x z ++ f _ y w :=
    fun x y z w => happend x z y w
  have hbytes : ∀ (x u : U16) (y z v w : U8), f 32 (x ++ y ++ z) (u ++ v ++ w) =
      f _ x u ++ f _ y v ++ f _ z w := fun x u y z v w =>
    (happend (x ++ y) (u ++ v) z w).trans (congrArg (· ++ f _ z w) (happend x u y v))
  simp only [dwordStream, AtrInput.zip, List.cons_append, List.zipWith_cons_cons,
    List.append_assoc, List.zipWith_append (hlen _ _), Vector.toList_zipWith,
    hextract, List.zipWith_nil_left, hhalves, hbytes]

theorem AtrInput.dwordStream_and (a m : AtrInput) :
    (a.and m).dwordStream = List.zipWith (· &&& ·) a.dwordStream m.dwordStream :=
  dwordStream_zip (fun _ _ _ _ => BitVec.and_append) (fun _ _ _ _ => BitVec.extractLsb'_and.symm)
    a m

def atrBucketHashKey : U32 := 0x3DAD14E2

def bktHashIteration (lo hi : U32) (hash : U32) (n : ℕ) : U32 :=
  let hash := if atrBucketHashKey.getLsbD n then hash ^^^ (lo >>> n) else hash
  if atrBucketHashKey.getLsbD (n + 16) then hash ^^^ (hi >>> n) else hash

/-- The masked input with its hash. -/
def atrComputePerfectHash (input mask : AtrInput) : AtrInput :=
  let input := input.and mask
  let stream := input.dwordStream
  let flowVmVlan := ntohl (stream.headD 0)
  let hi := ntohl (stream.tail.foldl (· ^^^ ·) 0)
  let lo := (hi >>> 16) ||| (hi <<< 16)
  let hi := hi ^^^ (flowVmVlan ^^^ (flowVmVlan >>> 16))
  let hash := bktHashIteration lo hi 0 0
  -- bit 0 of the stream must not be processed, so the VLAN joins the low dword only now
  let lo := lo ^^^ (flowVmVlan ^^^ (flowVmVlan <<< 16))
  let hash := (List.range' 1 15).foldl (bktHashIteration lo hi) hash
  { input with bktHash := (hash &&& 0x1FFF).setWidth 16 }

def atrL4typeMask : U8 := 0x3

def atrL4typeIpv6Mask : U8 := 0x4

def inputMaskOk (mask : AtrInput) (cloudMode : Bool) : Bool :=
  (mask.vmPool &&& 0x7F) ∈ [0x0, 0x7F] &&
  ((mask.flowType &&& atrL4typeMask) = atrL4typeMask ||
    (mask.flowType &&& atrL4typeMask) = 0 && mask.dstPort = 0 && mask.srcPort = 0) &&
  (ntohs mask.vlanId &&& 0xEFFF) ∈ [0x0000, 0x0FFF, 0xE000, 0xEFFF] &&
  mask.flexBytes ∈ [0x0000, 0xFFFF] &&
  (!cloudMode || (mask.innerMac.extractLsb' 0 8 ∈ [0x00, 0xFF] &&
    mask.tniVni ∈ [0x0, 0x00FFFFFF, 0xFFFFFFFF] && mask.tunnelType ∈ [0x0, 0xFFFF]))

/-- Of its effects only the status is kept. -/
def fdirSetInputMask (mask : AtrInput) (cloudMode : Bool) : ℤ :=
  if inputMaskOk mask cloudMode then success else errConfig

/-- Without `FLOW_EXT`; the other values are all refused. -/
inductive EthtoolFlow
  | tcpV4
  | udpV4
  | tcpV6
  | udpV6
  | sctpV4
  | ipUser
  | other
  deriving DecidableEq, Repr

/-- `union ethtool_flow_union`: word `i` is the bytes `4 i` to `4 i + 3`. -/
abbrev FlowUnion := ℕ → U32

namespace FlowUnion

section

variable (u : FlowUnion)

def ip4src : U32 := u 0

def ip4dst : U32 := u 1

def psrc : U16 := (u 2).extractLsb' 0 16

def pdst : U16 := (u 2).extractLsb' 16 16

def proto : U8 := (u 3).extractLsb' 16 8

def hasIp6 : Bool := (List.range 8).any fun i => u i != 0

def psrc6 : U16 := (u 8).extractLsb' 0 16

def pdst6 : U16 := (u 8).extractLsb' 16 16

end

end FlowUnion

structure FlowExt where
  vlanEtype : U16
  vlanTci : U16
  data1 : U32
  deriving DecidableEq, Repr

structure FlowSpec where
  flowType : EthtoolFlow
  ext : Bool
  hU : FlowUnion
  mU : FlowUnion
  hExt : FlowExt
  mExt : FlowExt
  ringCookie : U64
  location : U32

/-- `none` when it returns 0. -/
def flowspecToFlowType (fsp : FlowSpec) : Option U8 :=
  match fsp.flowType with
  | .tcpV4 => some 0x2
  | .udpV4 => some 0x1
  | .tcpV6 => some 0x6
  | .udpV6 => some 0x5
  | .sctpV4 => some 0x3
  | .ipUser =>
    -- `IPPROTO_TCP`, `IPPROTO_UDP`, `IPPROTO_SCTP`
    if fsp.hU.proto = 6 then some 0x2
    else if fsp.hU.proto = 17 then some 0x1
    else if fsp.hU.proto = 132 then some 0x3
    else if fsp.hU.proto = 0 ∧ fsp.mU.proto = 0 then some 0x0
    else none
  | .other => none

/-- With the flow type `t`, from union and extension. -/
def FlowSpec.fill (t : U8) (ip6 ext : Bool) (u : FlowUnion) (e : FlowExt) : AtrInput :=
  let input := { AtrInput.zero with flowType := t }
  let input := if ip6 then { input with srcPort := u.psrc6, dstPort := u.pdst6 }
    else { input with
      srcIp := setFirstWord input.srcIp u.ip4src
      dstIp := setFirstWord input.dstIp u.ip4dst
      srcPort := u.psrc
      dstPort := u.pdst }
  if ext then { input with
    vmPool := (ntohl e.data1).setWidth 8
    vlanId := e.vlanTci
    flexBytes := e.vlanEtype }
  else input

/-- `none` when the flow type is unknown or an IPv6 address is masked in. -/
def FlowSpec.parse (fsp : FlowSpec) : Option (AtrInput × AtrInput) :=
  match flowspecToFlowType fsp with
  | none => none
  | some t =>
    let ip6 : Bool := (t &&& atrL4typeIpv6Mask) ≠ 0
    -- `IXGBE_ATR_FLOW_TYPE_IPV4` has no ports
    let mt := if t = 0 then atrL4typeIpv6Mask else atrL4typeIpv6Mask ||| atrL4typeMask
    if ip6 && fsp.mU.hasIp6 then none
    else some (FlowSpec.fill t ip6 fsp.ext fsp.hU fsp.hExt,
      FlowSpec.fill mt ip6 fsp.ext fsp.mU fsp.mExt)

end Ixgbe
