import Ixgbe.Library.WordArray

/-! # Words, status codes and MAC generations

Without the 82598EB, which has its own filter routines. What is of the driver has its name in camel
case, without `ixgbe_`. -/

namespace Ixgbe

open WordArray

abbrev U32 := BitVec 32

/-- The register mask `1 << k`, also written `BIT(k)`. -/
abbrev shl1 (k : ℕ) : U32 := mask 32 k

/-- VLAN ids have 12 bits, and `0` is one of them. -/
instance vlanIdNeZero : NeZero 4096 := ⟨by decide⟩

def success : ℤ := 0

def errConfig : ℤ := -4

def errParam : ℤ := -5

def errNoSpace : ℤ := -25

def errInvalidArgument : ℤ := -32

def errMbx : ℤ := -41

def ePerm : ℤ := -1

def eNoMem : ℤ := -12

def eInval : ℤ := -22

def eNoSpc : ℤ := -28

def eOpNotSupp : ℤ := -95

def eProtoNoSupport : ℤ := -93

/-- A register is polled at most `n` times, until it has what `ready` says. -/
def pollUntil (ready : ℕ → Bool) : ℕ → ℕ → Bool
  | 0, _ => false
  | n + 1, k => ready k || pollUntil ready n (k + 1)

/-- A 6-byte Ethernet address; byte `i` is the bits `8 i` to `8 i + 7`. -/
abbrev MacAddr := BitVec 48

def isMulticastEtherAddr (addr : MacAddr) : Bool := addr.getLsbD 0

def isValidEtherAddr (addr : MacAddr) : Bool := !isMulticastEtherAddr addr && addr != 0

theorem ne_zero_of_isValidEtherAddr {addr : MacAddr} (h : isValidEtherAddr addr = true) :
    addr ≠ 0 := by
  rintro rfl
  exact absurd h (by decide)

/-- `enum ixgbe_mac_type`, from the first generation with SR-IOV on. -/
inductive MacType
  | mac82599EB
  | macX540
  | macX550
  | macX550EMx
  | macX550EMa
  | macE610
  deriving DecidableEq, Repr

def MacType.rank : MacType → ℕ
  | .mac82599EB => 2
  | .macX540 => 3
  | .macX550 => 4
  | .macX550EMx => 5
  | .macX550EMa => 6
  | .macE610 => 7

end Ixgbe
