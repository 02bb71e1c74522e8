import Ixgbe.Tx.Map

/-! # What is written into the transmit descriptors

`ixgbe_tx_map` with the descriptors next to `TxState`. The DMA layer gives the address of the `k`-th
mapping or fails. -/

namespace Ixgbe

open Ring

abbrev DmaAddr := BitVec 64

/-- In the form in which the driver writes it. -/
structure TxDesc where
  bufferAddr : DmaAddr
  cmdTypeLen : U32
  olinfoStatus : U32
  deriving DecidableEq, Repr

def advtxdDtalenMask : U32 := 0x0000FFFF

def txdCmdEop : U32 := 0x01000000

def txdCmdRs : U32 := 0x08000000

def txdCmd : U32 := txdCmdEop ||| txdCmdRs

def TxDesc.dtalen (d : TxDesc) : ℕ := (d.cmdTypeLen &&& advtxdDtalenMask).toNat

def TxDesc.eop (d : TxDesc) : Bool := d.cmdTypeLen &&& txdCmdEop != 0

def TxDesc.rs (d : TxDesc) : Bool := d.cmdTypeLen &&& txdCmdRs != 0

structure DescRing where
  st : TxState
  desc : ℕ → TxDesc

section

variable (s : DescRing) (i : ℕ)

def DescRing.modifyDesc (f : TxDesc → TxDesc) : DescRing :=
  { s with desc := Function.update s.desc i (f (s.desc i)) }

def DescRing.setAddr (dma : DmaAddr) : DescRing :=
  s.modifyDesc i fun d => { d with bufferAddr := dma }

def DescRing.setCmd (cmd : U32) : DescRing :=
  s.modifyDesc i fun d => { d with cmdTypeLen := cmd }

/-- Also the status word the hardware writes back. -/
def DescRing.setOlinfo (olinfo : U32) : DescRing :=
  { s.modifyDesc i fun d => { d with olinfoStatus := olinfo } with st := s.st.clearDd i }

def setFlag (input flag result : U32) : U32 :=
  if flag ≤ result then (input &&& flag) * (result / flag)
  else (input &&& flag) / (flag / result)

/-- With the bits for VLAN, TSO and timestamps. -/
def txCmdType (txFlags : U32) : U32 :=
  let cmdType : U32 := 0x00300000 ||| 0x20000000 ||| 0x02000000
  let cmdType := cmdType ||| setFlag txFlags 0x01 0x40000000
  let cmdType := cmdType ||| setFlag txFlags 0x02 0x80000000
  cmdType ||| setFlag txFlags 0x04 0x00080000

/-- The length of the payload and the bits for checksums. -/
def txOlinfoStatus (txFlags : U32) (paylen : U32) : U32 :=
  let olinfo := paylen <<< 14
  let olinfo := olinfo ||| setFlag txFlags 0x20 (0x02 <<< 8)
  let olinfo := olinfo ||| setFlag txFlags 0x10 (0x01 <<< 8)
  olinfo ||| setFlag txFlags 0x08 0x00000080

theorem setFlag_cases (input : U32) (i : ℕ) (result : U32) (hle : BitVec.twoPow 32 i ≤ result) :
    setFlag input (BitVec.twoPow 32 i) result =
        BitVec.twoPow 32 i * (result / BitVec.twoPow 32 i) ∨
      setFlag input (BitVec.twoPow 32 i) result = 0 := by
  rw [setFlag, if_pos hle, BitVec.and_twoPow]
  split
  · exact .inl rfl
  · exact .inr (BitVec.zero_mul ..)

/-- The bits of the command word that differ between the descriptors of a packet. -/
def cmdFieldMask : U32 := advtxdDtalenMask ||| txdCmd

theorem txCmdType_free (txFlags : U32) : txCmdType txFlags &&& cmdFieldMask = 0#32 := by
  rcases setFlag_cases txFlags 0 0x40000000 (by decide) with h0 | h0 <;>
  rcases setFlag_cases txFlags 1 0x80000000 (by decide) with h1 | h1 <;>
  rcases setFlag_cases txFlags 2 0x00080000 (by decide) with h2 | h2 <;>
  · change (0x22300000 ||| setFlag txFlags (BitVec.twoPow 32 0) 0x40000000 |||
      setFlag txFlags (BitVec.twoPow 32 1) 0x80000000 |||
      setFlag txFlags (BitVec.twoPow 32 2) 0x00080000) &&& cmdFieldMask = 0
    rw [h0, h1, h2]
    decide

/-- The descriptor it ends at and what is left of the part for it. -/
def writeSplit (cmdType : U32) (s : DescRing) (i : ℕ) (dma : DmaAddr) (size : ℕ) :
    ℕ × ℕ × DescRing :=
  if size > maxDataPerTxd then
    let s := s.setCmd i (cmdType ^^^ BitVec.ofNat 32 maxDataPerTxd)
    let i := next s.st.ring.count i
    let s := s.setOlinfo i 0
    let dma := dma + BitVec.ofNat 64 maxDataPerTxd
    writeSplit cmdType (s.setAddr i dma) i dma (size - maxDataPerTxd)
  else (i, size, s)
termination_by size
decreasing_by simp only [maxDataPerTxd] at *; omega

/-- The result also says what is left for the last descriptor. -/
def writeLoop (dma : ℕ → Option DmaAddr) (cmdType : U32) (frags : List ℕ) (s : DescRing)
    (i b size k : ℕ) : Bool × ℕ × ℕ × DescRing :=
  match dma k with
  | none => (false, i, size, s)
  | some addr =>
    -- record length and address
    let s := DescRing.setAddr { s with st := s.st.recordMap b size } i addr
    let r := writeSplit cmdType s i addr size
    if frags.sum = 0 then (true, r)
    else
      match frags with
      | [] => (true, r)
      | frag :: frags =>
        let i := next s.st.ring.count r.1
        let s := r.2.2.setCmd r.1 (cmdType ^^^ BitVec.ofNat 32 r.2.1)
        writeLoop dma cmdType frags (s.setOlinfo i 0) i i frag (k + 1)

def writeMap (first : ℕ) (skb : Skb) (txFlags hdrLen : U32) (dma : ℕ → Option DmaAddr) :
    Option (Bool × DescRing) :=
  let cmdType := txCmdType txFlags
  let i := s.st.ring.nextToUse
  let len := BitVec.ofNat 32 (skb.headlen + skb.frags.sum)
  let s := s.setOlinfo i (txOlinfoStatus txFlags (len - hdrLen))
  match writeLoop dma cmdType skb.frags s i first skb.headlen 0 with
  | (true, i, size, s) =>
    -- the last descriptor gets the marks
    let s := s.setCmd i (cmdType ||| (BitVec.ofNat 32 size ||| txdCmd))
    some (true, { s with st := s.st.handOver first i })
  | (false, i, _, s) =>
    (txUnwind first s.st.ring.count s.st i).map fun st => (false, { s with st := st.giveUp first })

structure ContextWords where
  vlanMacipLens : U32
  fcoeSofEof : U32
  typeTucmd : U32
  mssL4lenIdx : U32
  deriving DecidableEq, Repr

/-- The first two words stand in the place of the address. -/
def writeCtxtdesc (w : ContextWords) : DescRing :=
  let typeTucmd := w.typeTucmd ||| (0x20000000 ||| 0x00200000)
  { st := txCtxtdesc s.st
    desc := Function.update s.desc s.st.ring.nextToUse
      ⟨w.fcoeSofEof ++ w.vlanMacipLens, typeTucmd, w.mssL4lenIdx⟩ }

structure TxPrep where
  txFlags : U32
  hdrLen : U32
  /-- The context descriptor, if an offload needs one. -/
  context : Option ContextWords

def TxPrep.offload (p : TxPrep) : Offload := if p.context.isSome then .context else .plain

def sendFrame (skb : Skb) (p : TxPrep) (dma : ℕ → Option DmaAddr) :
    Option (XmitResult × DescRing) :=
  if s.st.ring.maybeStopTx (skb.useCount + 3) then some (.busy, s)
  else
    let first := s.st.ring.nextToUse
    let s := { s with st := s.st.modifyBuf first fun b => { b with skb := some skb.id } }
    let s := match p.context with
      | none => s
      | some w => writeCtxtdesc s w
    (writeMap s first skb p.txFlags p.hdrLen dma).map fun r =>
      (if r.1 then .sent else .failed, r.2)

def mapsOk (dma : ℕ → Option DmaAddr) : ℕ → Bool := fun k => (dma k).isSome

theorem writeSplit_core (cmdType : U32) (s : DescRing) (i : ℕ) (dma : DmaAddr) (size : ℕ) :
    ((writeSplit cmdType s i dma size).1, (writeSplit cmdType s i dma size).2.2.st) =
      txSplit s.st i size := by
  fun_induction writeSplit cmdType s i dma size with
  | case1 s i dma size hgt s' i' s'' dma' ih =>
    rw [txSplit, if_pos hgt]
    exact ih
  | case2 s i dma size hle =>
    rw [txSplit, if_neg hle]

theorem writeLoop_core (dma : ℕ → Option DmaAddr) (cmdType : U32) (frags : List ℕ) (s : DescRing)
    (i b size k : ℕ) :
    ((writeLoop dma cmdType frags s i b size k).1, (writeLoop dma cmdType frags s i b size k).2.1,
      (writeLoop dma cmdType frags s i b size k).2.2.2.st) =
        txMapLoop (mapsOk dma) frags s.st i b size k := by
  induction frags generalizing s i b size k with
  | nil =>
    rw [writeLoop, txMapLoop, mapsOk]
    cases dma k with
    | none => rfl
    | some addr => exact congrArg (Prod.mk true) (writeSplit_core ..)
  | cons frag frags ih =>
    rw [writeLoop, txMapLoop, mapsOk]
    cases dma k with
    | none => rfl
    | some addr =>
      have hsplit := writeSplit_core cmdType
        (DescRing.setAddr { s with st := s.st.recordMap b size } i addr) i addr size
      rw [Option.isSome_some, dmaMap_true]
      dsimp only
      by_cases hsum : (frag :: frags).sum = 0
      · rw [if_pos hsum, if_pos hsum]
        exact congrArg (Prod.mk true) hsplit
      · rw [if_neg hsum, if_neg hsum, ih]
        exact congrArg (fun r => txMapLoop (mapsOk dma) frags
          (r.2.clearDd (next s.st.ring.count r.1)) (next s.st.ring.count r.1)
          (next s.st.ring.count r.1) frag (k + 1)) hsplit

theorem writeMap_core (first : ℕ) (skb : Skb) (txFlags hdrLen : U32) (dma : ℕ → Option DmaAddr) :
    (writeMap s first skb txFlags hdrLen dma).map (fun r => (r.1, r.2.st)) =
      txMap s.st first skb (mapsOk dma) := by
  have hloop := writeLoop_core dma (txCmdType txFlags) skb.frags
    (s.setOlinfo s.st.ring.nextToUse (txOlinfoStatus txFlags
      (BitVec.ofNat 32 (skb.headlen + skb.frags.sum) - hdrLen)))
    s.st.ring.nextToUse first skb.headlen 0
  rw [writeMap, txMap]
  generalize writeLoop dma _ skb.frags _ _ first skb.headlen 0 = r at hloop ⊢
  obtain ⟨ok, i, size, s'⟩ := r
  change (ok, i, s'.st) = txMapLoop _ skb.frags (s.st.clearDd s.st.ring.nextToUse)
    s.st.ring.nextToUse first skb.headlen 0 at hloop
  rw [← hloop]
  cases ok with
  | true => rfl
  | false =>
    rw [Option.map_map]
    rfl

theorem sendFrame_core (skb : Skb) (p : TxPrep) (dma : ℕ → Option DmaAddr) :
    (sendFrame s skb p dma).map (fun r => (r.1, r.2.st)) =
      xmitFrameRing s.st skb p.offload (mapsOk dma) := by
  have hmap : ∀ s1 first, ((writeMap s1 first skb p.txFlags p.hdrLen dma).map fun r =>
      ((if r.1 then XmitResult.sent else .failed), r.2)).map (fun r => (r.1, r.2.st)) =
        (txMap s1.st first skb (mapsOk dma)).map xmitResult := fun s1 first => by
    rw [← writeMap_core, Option.map_map, Option.map_map]
    rfl
  rw [sendFrame, xmitFrameRing]
  by_cases hstop : s.st.ring.maybeStopTx (skb.useCount + 3)
  · rw [if_pos hstop, if_pos hstop]
    rfl
  · rw [if_neg hstop, if_neg hstop, TxPrep.offload]
    cases p.context with
    | none => exact hmap ..
    | some w => exact hmap (writeCtxtdesc _ w) _

end

end Ixgbe
