import Ixgbe.Hw.Basic

/-! # The VLAN filter table (`ixgbe_common.c`)

**VFTA** admits a VLAN at all, 64 entries **VLVF** give VLANs a pool list, held in **VLVFB**. Slot 0
is for VLAN 0. -/

namespace Ixgbe

structure VlanRegs where
  vtCtl : U32
  vfta : ℕ → U32
  vlvf : ℕ → U32
  /-- `IXGBE_VLVFB(i)`, 128 words, two for each VLVF entry. -/
  vlvfb : ℕ → U32

def vlvfEntries : ℕ := 64

def vlvfVien : U32 := 0x80000000#32

def vtCtlVtEnable : U32 := 0x00000001#32

/-- Every supported MAC's init routine sets `hw->mac.vft_size` to 128. -/
def vftSize : ℕ := 128

namespace VlanRegs

def writeVfta (t : VlanRegs) (i : ℕ) (x : U32) : VlanRegs :=
  { t with vfta := Function.update t.vfta i x }

def writeVlvf (t : VlanRegs) (i : ℕ) (x : U32) : VlanRegs :=
  { t with vlvf := Function.update t.vlvf i x }

def writeVlvfb (t : VlanRegs) (i : ℕ) (x : U32) : VlanRegs :=
  { t with vlvfb := Function.update t.vlvfb i x }

end VlanRegs

def vlvfWord (vlan : ℕ) : U32 := vlvfVien ||| BitVec.ofNat 32 vlan

/-- Over the entries `regindex, …, 1`, carrying `first_empty_slot`. -/
def findVlvfSlotFrom (vlvf : ℕ → U32) (vlan : U32) : ℕ → ℤ → ℤ
  | 0, firstEmptySlot => if firstEmptySlot = 0 then errNoSpace else firstEmptySlot
  | k + 1, firstEmptySlot =>
      let bits := vlvf (k + 1)
      if bits = vlan then ((k + 1 : ℕ) : ℤ)
      else findVlvfSlotFrom vlvf vlan k
        (if firstEmptySlot = 0 ∧ bits = 0 then ((k + 1 : ℕ) : ℤ) else firstEmptySlot)

/-- The slot of `vlan`, or the first empty one (unless `vlvfBypass`), or `IXGBE_ERR_NO_SPACE`. -/
def findVlvfSlot (t : VlanRegs) (vlan : ℕ) (vlvfBypass : Bool) : ℤ :=
  if vlan = 0 then 0
  else findVlvfSlotFrom t.vlvf (vlvfWord vlan) (vlvfEntries - 1)
    (if vlvfBypass then errNoSpace else 0)

/-- With the caller's `*vfta_delta` as it leaves it. -/
def setVlvfGeneric (t : VlanRegs) (vlan vind : ℕ) (vlanOn : Bool) (vftaDelta vfta : U32)
    (vlvfBypass : Bool) : ℤ × U32 × VlanRegs :=
  if 4095 < vlan ∨ 63 < vind then (errParam, vftaDelta, t)
  else if t.vtCtl &&& vtCtlVtEnable = 0 then (success, vftaDelta, t)
  else
    let vlvfIndex := findVlvfSlot t vlan vlvfBypass
    if vlvfIndex < 0 then (vlvfIndex, vftaDelta, t)
    else
      let slot := vlvfIndex.toNat
      let bits := t.vlvfb (slot * 2 + vind / 32) ||| shl1 (vind % 32)
      if vlanOn then
        (success, vftaDelta,
          (t.writeVlvfb (slot * 2 + vind / 32) bits).writeVlvf slot (vlvfWord vlan))
      else
        let bits := bits ^^^ shl1 (vind % 32)
        if bits = 0 ∧ t.vlvfb (slot * 2 + 1 - vind / 32) = 0 then
          -- VFTA goes first, so that no stray packet reaches the default pool in between
          let t := if vftaDelta ≠ 0 then t.writeVfta (vlan / 32) vfta else t
          (success, vftaDelta, (t.writeVlvf slot 0).writeVlvfb (slot * 2 + vind / 32) 0)
        else
          -- other pools still use the entry: the request to clear the VFTA bit is dropped
          (success, 0, (t.writeVlvfb (slot * 2 + vind / 32) bits).writeVlvf slot (vlvfWord vlan))

def setVftaGeneric (t : VlanRegs) (vlan vind : ℕ) (vlanOn vlvfBypass : Bool) : ℤ × VlanRegs :=
  if 4095 < vlan ∨ 63 < vind then (errParam, t)
  else
    let regidx := vlan / 32
    let vfta := t.vfta regidx
    let vftaDelta := shl1 (vlan % 32) &&& (if vlanOn then ~~~vfta else vfta)
    let vfta := vfta ^^^ vftaDelta
    match setVlvfGeneric t vlan vind vlanOn vftaDelta vfta vlvfBypass with
    | (retVal, vftaDelta, t) =>
      if retVal ≠ success ∧ vlvfBypass = false then (retVal, t)
      else (success, if vftaDelta ≠ 0 then t.writeVfta regidx vfta else t)

def clearVftaGeneric (t : VlanRegs) : VlanRegs :=
  let t := (List.range vftSize).foldl (fun t offset => t.writeVfta offset 0) t
  (List.range vlvfEntries).foldl
    (fun t offset =>
      ((t.writeVlvf offset 0).writeVlvfb (offset * 2) 0).writeVlvfb (offset * 2 + 1) 0) t

end Ixgbe
