import Ixgbe.Vlan.Slots

/-! # The driver's VLAN operations (`ixgbe_main.c`, `ixgbe_sriov.c`)

The PF uses the VLVF table only where a VF has an entry (`vlvf_bypass`). In *VLAN promiscuous mode*
all VFTA bits are set and the PF is in every slot of `1..63`. -/

namespace Ixgbe

open WordArray List

structure PoolCfg where
  vmdqEnabled : Bool
  /-- With SR-IOV the number of VFs. -/
  offset : ℕ
  numRxPools : ℕ

def PoolCfg.vmdqP (cfg : PoolCfg) (p : ℕ) : ℕ := p + cfg.offset

def vlnctrlVfe : U32 := 0x40000000#32

structure VlanState where
  regs : VlanRegs
  vlnctrl : U32
  activeVlans : ℕ → BitVec 64
  vlanPromisc : Bool

section

variable (cfg : PoolCfg) (s : VlanState) (vid : ℕ)

def VlanState.active : Bool := bit s.activeVlans vid

def setVftaRxPools (t : VlanRegs) (vid : ℕ) (vlanOn : Bool) : VlanRegs :=
  (range' 1 (cfg.numRxPools - 1)).foldl
    (fun t i => (setVftaGeneric t vid (cfg.vmdqP i) vlanOn true).2) t

def vlanRxAddVid : VlanState :=
  let s := if vid < 4096 then { s with activeVlans := setBit s.activeVlans vid true } else s
  let s := if vid = 0 ∨ s.vlanPromisc = false then
      { s with regs := (setVftaGeneric s.regs vid (cfg.vmdqP 0) true (decide (vid ≠ 0))).2 }
    else s
  if cfg.vmdqEnabled then { s with regs := setVftaRxPools cfg s.regs vid true } else s

def vlanRxKillVid : VlanState :=
  -- the user is not allowed to remove VLAN 0
  if vid = 0 then s
  else
    let s := if s.vlanPromisc = false then
        { s with regs := (setVftaGeneric s.regs vid (cfg.vmdqP 0) false true).2 }
      else s
    let s := if cfg.vmdqEnabled then { s with regs := setVftaRxPools cfg s.regs vid false } else s
    { s with activeVlans := setBit s.activeVlans vid false }

/-- Over the entries `idx, …, 1`. -/
def findVlvfEntryFrom (vlvf : ℕ → U32) (vlan : ℕ) : ℕ → ℕ
  | 0 => 0
  | k + 1 => if vlvfVid (vlvf (k + 1)) = vlan then k + 1 else findVlvfEntryFrom vlvf vlan k

/-- The entry that carries `vlan`, or `0`. -/
def findVlvfEntry (t : VlanRegs) (vlan : ℕ) : ℕ :=
  if vlan = 0 then 0 else findVlvfEntryFrom t.vlvf vlan (vlvfEntries - 1)

/-- Free the entry of `vid` if no pool but the PF uses it. -/
def updatePfPromiscVlvf : VlanState :=
  let idx := findVlvfEntry s.regs vid
  if idx = 0 then s
  else
    let word := idx * 2 + cfg.vmdqP 0 / 32
    let bits := ~~~(shl1 (cfg.vmdqP 0 % 32)) &&& s.regs.vlvfb word
    if bits = 0 ∧ s.regs.vlvfb (word ^^^ 1) = 0 then
      let t := if s.vlanPromisc = false then s.regs.writeVlvfb word 0 else s.regs
      { s with regs := t.writeVlvf idx 0 }
    else s

def setVfVlan (add : Bool) (vid vf : ℕ) : ℤ × VlanState :=
  -- a VLAN the PF monitors needs an entry that lists the PF as well
  let pf := if add ∧ s.active vid then setVftaGeneric s.regs vid (cfg.vmdqP 0) true false
    else (success, s.regs)
  if pf.1 ≠ success then (pf.1, { s with regs := pf.2 })
  else
    let r := setVftaGeneric pf.2 vid vf add false
    let s := { s with regs := r.2 }
    if add ∧ r.1 = success then (r.1, s)
    else if s.active vid ∨ s.vlanPromisc then (r.1, updatePfPromiscVlvf cfg s vid)
    else (r.1, s)

def clearVfVlansSlot (vlanPromisc : Bool) (vf : ℕ) (t : VlanRegs) (i : ℕ) : VlanRegs :=
  let poolMask := ~~~(shl1 (cfg.vmdqP 0 % 32))
  let vlvfbMask := shl1 (vf % 32)
  let word := i * 2 + vf / 32
  let vlvfb := t.vlvfb word
  if vlvfb &&& vlvfbMask = 0 then t
  else
    let vlvfb := vlvfb ^^^ vlvfbMask
    -- the 64-bit pool list without the VF, as the array `bits[2]`
    let bits : ℕ → U32 := fun h => if h = word % 2 then vlvfb else t.vlvfb (word ^^^ 1)
    if bits ((cfg.vmdqP 0 / 32) ^^^ 1) ≠ 0 ∨ bits (cfg.vmdqP 0 / 32) &&& poolMask ≠ 0 then
      t.writeVlvfb word vlvfb
    else if bits 0 ≠ 0 ∨ bits 1 ≠ 0 then
      -- only the PF is left: the entry goes, the VFTA bit stays
      (t.writeVlvf i 0).writeVlvfb word (if vlanPromisc then vlvfb else 0)
    else if t.vlvf i = 0 then t.writeVlvfb word vlvfb
    else
      let vid := vlvfVid (t.vlvf i)
      let vfta := t.vfta (vid / 32)
      let t := if vfta &&& shl1 (vid % 32) ≠ 0 then
          t.writeVfta (vid / 32) (vfta ^^^ shl1 (vid % 32)) else t
      (t.writeVlvf i 0).writeVlvfb word (if vlanPromisc then vlvfb else 0)

def clearVfVlans (vf : ℕ) : VlanState :=
  { s with
    regs := (range vlvfEntries).reverse.foldl (clearVfVlansSlot cfg s.vlanPromisc vf) s.regs }

/-- `for (i = IXGBE_VLVF_ENTRIES; --i;)`: 63 down to 1. -/
def vlvfSlots : List ℕ := (range' 1 (vlvfEntries - 1)).reverse

def vlanPromiscEnable : VlanState :=
  if cfg.vmdqEnabled = false then { s with vlnctrl := s.vlnctrl &&& ~~~vlnctrlVfe }
  else
    -- the VLAN filter stays on in SR-IOV
    let s := { s with vlnctrl := s.vlnctrl ||| vlnctrlVfe }
    if s.vlanPromisc then s
    else
      let t := vlvfSlots.foldl
        (fun t i => t.writeVlvfb (i * 2 + cfg.vmdqP 0 / 32)
          (t.vlvfb (i * 2 + cfg.vmdqP 0 / 32) ||| shl1 (cfg.vmdqP 0 % 32))) s.regs
      let t := (range vftSize).reverse.foldl (fun t i => t.writeVfta i (~~~0)) t
      { s with regs := t, vlanPromisc := true }

def vftaBlockSize : ℕ := 8

/-- The local `vfta[]` block and the registers. -/
def scrubVftaSlot (vftaOffset : ℕ) (st : (ℕ → U32) × VlanRegs) (i : ℕ) : (ℕ → U32) × VlanRegs :=
  let vidStart := vftaOffset * 32
  let vidEnd := vidStart + vftaBlockSize * 32
  let vlvf := st.2.vlvf i
  let vid := vlvfVid vlvf
  if vid < vidStart ∨ vidEnd ≤ vid then st
  else
    let block := if vlvf ≠ 0 then
        Function.update st.1 ((vid - vidStart) / 32)
          (st.1 ((vid - vidStart) / 32) ||| shl1 (vid % 32))
      else st.1
    if vlvf ≠ 0 ∧ s.active vid then (block, st.2)
    else
      -- remove the PF from the pool
      let word := i * 2 + cfg.vmdqP 0 / 32
      (block, st.2.writeVlvfb word (~~~(shl1 (cfg.vmdqP 0 % 32)) &&& st.2.vlvfb word))

/-- Rebuild one block of the VFTA from the VLVF table and `active_vlans`. -/
def scrubVfta (vftaOffset : ℕ) : VlanState :=
  let st := vlvfSlots.foldl (scrubVftaSlot cfg s vftaOffset) (fun _ => 0, s.regs)
  let t := (range vftaBlockSize).reverse.foldl
    (fun t i =>
      let vid := (vftaOffset + i) * 32
      t.writeVfta (vftaOffset + i)
        (st.1 i ||| ((s.activeVlans (vid / 64)) >>> (vid % 64)).setWidth 32)) st.2
  { s with regs := t }

def vlanPromiscDisable : VlanState :=
  let s := { s with vlnctrl := s.vlnctrl ||| vlnctrlVfe }
  if cfg.vmdqEnabled = false then s
  else if s.vlanPromisc = false then s
  else
    -- `for (i = 0; i < vft_size; i += VFTA_BLOCK_SIZE)`
    (range (vftSize / vftaBlockSize)).foldl
      (fun s k => scrubVfta cfg s (k * vftaBlockSize)) { s with vlanPromisc := false }

end

end Ixgbe
