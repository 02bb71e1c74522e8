import Ixgbe.Tx.Descriptors
import Ixgbe.Tx.Ownership

/-! # The descriptors cover the packet

The regions of a sent packet's descriptors are exactly its bytes and only the last is marked; one
that cannot be mapped leaves nothing behind. -/

namespace Ixgbe

open Ring List BitVec Option

def region (a : DmaAddr) (size : ℕ) : List DmaAddr :=
  (List.range size).map fun k => a + BitVec.ofNat 64 k

theorem region_add (a : DmaAddr) (m k : ℕ) :
    region a (m + k) = region a m ++ region (a + BitVec.ofNat 64 m) k := by
  rw [region, List.range_add, map_append, List.map_map]
  refine congrArg (region a m ++ ·) (map_congr_left fun j _ => ?_)
  rw [Function.comp_apply, ofNat_add, BitVec.add_assoc]

theorem length_region (a : DmaAddr) (size : ℕ) : (region a size).length = size := by
  rw [region, length_map, length_range]

def TxDesc.bytes (d : TxDesc) : List DmaAddr := region d.bufferAddr d.dtalen

/-- The first part has the packet's `k`-th mapping. -/
def mappedBytes (dma : ℕ → Option DmaAddr) : ℕ → List ℕ → List DmaAddr
  | _, [] => []
  | k, size :: sizes => region ((dma k).getD 0) size ++ mappedBytes dma (k + 1) sizes

def Skb.bytes (skb : Skb) (dma : ℕ → Option DmaAddr) : List DmaAddr :=
  mappedBytes dma 0 (skb.headlen :: skb.frags)

section Fields

variable {cmdType : U32} {size : ℕ}

section

variable {m : U32} (hfree : cmdType &&& cmdFieldMask = 0#32) (hm : cmdFieldMask &&& m = m)

include hfree hm

theorem and_field : cmdType &&& m = 0#32 := by
  rw [← hm, ← BitVec.and_assoc, hfree, zero_and]

theorem xor_and_field (z : U32) : (cmdType ^^^ z) &&& m = z &&& m := by
  have hdistrib : (cmdType ^^^ z) &&& m = (cmdType &&& m) ^^^ (z &&& m) := by
    ext i
    simp only [getElem_and, getElem_xor, Bool.and_xor_distrib_right]
  rw [hdistrib, and_field hfree hm, BitVec.zero_xor]

theorem or_and_field (z : U32) : (cmdType ||| z) &&& m = z &&& m := by
  rw [BitVec.and_or_distrib_right, and_field hfree hm, zero_or]

end

section

variable (hsize : size ≤ maxDataPerTxd)

include hsize

theorem ofNat_and_dtalen : (BitVec.ofNat 32 size &&& advtxdDtalenMask).toNat = size := by
  have hmask : advtxdDtalenMask.toNat = 2 ^ 16 - 1 := rfl
  rw [toNat_and, hmask, Nat.and_two_pow_sub_one_eq_mod, toNat_ofNat]
  rw [maxDataPerTxd] at hsize
  omega

theorem ofNat_and_twoPow {i : ℕ} (hi : 16 ≤ i) :
    BitVec.ofNat 32 size &&& BitVec.twoPow 32 i = 0#32 := by
  have hlt : size < 2 ^ i := by
    calc size ≤ 16384 := hsize
      _ < 2 ^ 16 := by decide
      _ ≤ 2 ^ i := Nat.pow_le_pow_right (by decide) hi
  rw [and_twoPow, getLsbD_ofNat, Nat.testBit_lt_two_pow hlt, Bool.and_false]
  rfl

theorem ofNat_and_eop : BitVec.ofNat 32 size &&& txdCmdEop = 0#32 :=
  ofNat_and_twoPow (i := 24) hsize (by decide)

theorem ofNat_and_rs : BitVec.ofNat 32 size &&& txdCmdRs = 0#32 :=
  ofNat_and_twoPow (i := 27) hsize (by decide)

end

variable {d : TxDesc}

theorem fields_of_xor (hfree : cmdType &&& cmdFieldMask = 0#32) (hsize : size ≤ maxDataPerTxd)
    (hd : d.cmdTypeLen = cmdType ^^^ BitVec.ofNat 32 size) :
    d.dtalen = size ∧ d.eop = false ∧ d.rs = false := by
  rw [TxDesc.dtalen, TxDesc.eop, TxDesc.rs, hd, xor_and_field hfree (by decide),
    xor_and_field hfree (by decide), xor_and_field hfree (by decide), ofNat_and_eop hsize,
    ofNat_and_rs hsize]
  exact ⟨ofNat_and_dtalen hsize, rfl, rfl⟩

theorem fields_of_or (hfree : cmdType &&& cmdFieldMask = 0#32) (hsize : size ≤ maxDataPerTxd)
    (hd : d.cmdTypeLen = cmdType ||| (BitVec.ofNat 32 size ||| txdCmd)) :
    d.dtalen = size ∧ d.eop = true ∧ d.rs = true := by
  have hlen : (BitVec.ofNat 32 size ||| txdCmd) &&& advtxdDtalenMask =
      BitVec.ofNat 32 size &&& advtxdDtalenMask := by
    rw [BitVec.and_or_distrib_right, show txdCmd &&& advtxdDtalenMask = 0#32 by decide, or_zero]
  rw [TxDesc.dtalen, TxDesc.eop, TxDesc.rs, hd, or_and_field hfree (by decide),
    or_and_field hfree (by decide), or_and_field hfree (by decide), hlen,
    BitVec.and_or_distrib_right, BitVec.and_or_distrib_right, ofNat_and_eop hsize,
    ofNat_and_rs hsize]
  exact ⟨ofNat_and_dtalen hsize, rfl, rfl⟩

end Fields

/-- None of them is marked, and they stand for these bytes. -/
structure Filled (n b : ℕ) (desc : ℕ → TxDesc) (j : ℕ) (bytes : List DmaAddr) : Prop where
  len : ∀ k < j, 0 < (desc (slot n b k)).dtalen ∧ (desc (slot n b k)).dtalen ≤ maxDataPerTxd
  unmarked : ∀ k < j, (desc (slot n b k)).eop = false ∧ (desc (slot n b k)).rs = false
  bytes : ((List.range j).flatMap fun k => (desc (slot n b k)).bytes) = bytes

/-- Descriptor `j` has its address, and with a length of `rest` it would complete these bytes. -/
structure Pending (n b : ℕ) (s : DescRing) (j rest : ℕ) (bytes : List DmaAddr) : Prop where
  count : s.st.ring.count = n
  filled : ∃ done, Filled n b s.desc j done ∧
    done ++ region (s.desc (slot n b j)).bufferAddr rest = bytes

section Loops

variable {n b j : ℕ} {s : DescRing} {done bytes : List DmaAddr} {cmdType : U32}

theorem filled_zero (n b : ℕ) (desc : ℕ → TxDesc) : Filled n b desc 0 [] :=
  ⟨fun _ hk => absurd hk (Nat.not_lt_zero _), fun _ hk => absurd hk (Nat.not_lt_zero _), rfl⟩

theorem modifyDesc_self (s : DescRing) (i : ℕ) (f : TxDesc → TxDesc) :
    (s.modifyDesc i f).desc i = f (s.desc i) := Function.update_self ..

theorem modifyDesc_of_ne (s : DescRing) {i k : ℕ} (f : TxDesc → TxDesc) (h : k ≠ i) :
    (s.modifyDesc i f).desc k = s.desc k := Function.update_of_ne h ..

section

variable (h : Filled n b s.desc j done)

include h

theorem Filled.write {m : ℕ} (hjm : j ≤ m) (hm : m < n)
    (f : TxDesc → TxDesc) : Filled n b (s.modifyDesc (slot n b m) f).desc j done := by
  have hkept : ∀ k < j, (s.modifyDesc (slot n b m) f).desc (slot n b k) = s.desc (slot n b k) :=
    fun k hk => modifyDesc_of_ne s f (slot_ne (by omega) hm (by omega))
  refine ⟨fun k hk => ?_, fun k hk => ?_, ?_⟩
  · rw [hkept k hk]
    exact h.len k hk
  · rw [hkept k hk]
    exact h.unmarked k hk
  · rw [← h.bytes]
    exact flatMap_congr fun k hk => by rw [hkept k (mem_range.mp hk)]

theorem Filled.command (hj : j < n) (cmd : U32) :
    Filled n b (s.setCmd (slot n b j) cmd).desc j done ∧
      ((s.setCmd (slot n b j) cmd).desc (slot n b j)).cmdTypeLen = cmd ∧
      ∀ len, ((s.setCmd (slot n b j) cmd).desc (slot n b j)).dtalen = len →
        ((List.range (j + 1)).flatMap fun k =>
          ((s.setCmd (slot n b j) cmd).desc (slot n b k)).bytes) =
            done ++ region (s.desc (slot n b j)).bufferAddr len := by
  have hold := h.write (Nat.le_refl j) hj fun d => { d with cmdTypeLen := cmd }
  have hself := modifyDesc_self s (slot n b j) fun d => { d with cmdTypeLen := cmd }
  refine ⟨hold, congrArg TxDesc.cmdTypeLen hself, fun len hlen => ?_⟩
  have haddr : ((s.setCmd (slot n b j) cmd).desc (slot n b j)).bufferAddr =
      (s.desc (slot n b j)).bufferAddr := by
    rw [DescRing.setCmd, hself]
  rw [range_succ, flatMap_append, flatMap_singleton, TxDesc.bytes, hlen, haddr]
  exact congrArg (· ++ _) hold.bytes

theorem Filled.close (hj : j < n)
    (hfree : cmdType &&& cmdFieldMask = 0#32) {len : ℕ} (hpos : 0 < len)
    (hlen : len ≤ maxDataPerTxd) :
    Filled n b (s.setCmd (slot n b j) (cmdType ^^^ BitVec.ofNat 32 len)).desc (j + 1)
      (done ++ region (s.desc (slot n b j)).bufferAddr len) := by
  obtain ⟨hold, hcmd, hbytes⟩ := h.command hj (cmdType ^^^ BitVec.ofNat 32 len)
  obtain ⟨hdta, heop, hrs⟩ := fields_of_xor hfree hlen hcmd
  refine ⟨?_, ?_, hbytes len hdta⟩
  · exact Nat.forall_lt_succ_right.mpr ⟨hold.len, hdta.symm ▸ hpos, hdta.symm ▸ hlen⟩
  · exact Nat.forall_lt_succ_right.mpr ⟨hold.unmarked, heop, hrs⟩

theorem Filled.start (hcount : s.st.ring.count = n) (hj : j < n) (addr : DmaAddr) (size : ℕ) :
    Pending n b (s.setAddr (slot n b j) addr) j size (done ++ region addr size) := by
  refine ⟨hcount, done, h.write (Nat.le_refl j) hj _, ?_⟩
  rw [DescRing.setAddr, modifyDesc_self]

end

theorem Pending.advance {size : ℕ} (h : Pending n b s j size bytes) (hj : j + 1 < n)
    (hfree : cmdType &&& cmdFieldMask = 0#32) (hgt : size > maxDataPerTxd) :
    Pending n b (((s.setCmd (slot n b j) (cmdType ^^^ BitVec.ofNat 32 maxDataPerTxd)).setOlinfo
      (slot n b (j + 1)) 0).setAddr (slot n b (j + 1))
        ((s.desc (slot n b j)).bufferAddr + BitVec.ofNat 64 maxDataPerTxd))
      (j + 1) (size - maxDataPerTxd) bytes := by
  obtain ⟨done, hfilled, hbytes⟩ := h.filled
  have hclosed := hfilled.close (by omega) hfree (show 0 < maxDataPerTxd by decide) (Nat.le_refl _)
  have hstart := Filled.start (s := (s.setCmd (slot n b j) _).setOlinfo (slot n b (j + 1)) 0)
    (hclosed.write (Nat.le_refl _) hj fun d => { d with olinfoStatus := 0 }) h.count hj
    ((s.desc (slot n b j)).bufferAddr + BitVec.ofNat 64 maxDataPerTxd) (size - maxDataPerTxd)
  -- the two pieces of the region are the whole
  rwa [List.append_assoc, ← region_add, Nat.add_sub_cancel' (Nat.le_of_lt hgt), hbytes] at hstart

theorem writeSplit_pending (hfree : cmdType &&& cmdFieldMask = 0#32) {size : ℕ} (hpos : 0 < size)
    (h : Pending n b s j size bytes) (hroom : j + descs size ≤ n) : ∃ rest s',
    writeSplit cmdType s (slot n b j) (s.desc (slot n b j)).bufferAddr size =
      (slot n b (j + descs size - 1), rest, s') ∧ 0 < rest ∧ rest ≤ maxDataPerTxd ∧
      Pending n b s' (j + descs size - 1) rest bytes := by
  induction size using Nat.strong_induction_on generalizing s j with
  | h size ih =>
    by_cases hgt : size > maxDataPerTxd
    · have hmax : 0 < maxDataPerTxd := by decide
      have hdescs := descs_of_gt hgt
      have hrest : 0 < descs (size - maxDataPerTxd) := descs_pos (by omega)
      obtain ⟨rest, s', heq, hr⟩ := ih (size - maxDataPerTxd) (by omega) (by omega)
        (h.advance (by omega) hfree hgt) (by omega)
      rw [DescRing.setAddr, modifyDesc_self] at heq
      rw [show j + 1 + descs (size - maxDataPerTxd) - 1 = j + descs size - 1 by omega] at heq hr
      refine ⟨rest, s', ?_, hr⟩
      have hnext : next s.st.ring.count (slot n b j) = slot n b (j + 1) := by
        rw [h.count, next_slot (by omega)]
      rw [writeSplit, if_pos hgt, ← heq, ← hnext]
      rfl
    · rw [writeSplit, if_neg hgt, descs_of_le hpos hgt, Nat.add_sub_cancel]
      exact ⟨size, s, rfl, hpos, Nat.le_of_not_lt hgt, h⟩

theorem Filled.split (h : Filled n b s.desc j done) (hcount : s.st.ring.count = n)
    (hfree : cmdType &&& cmdFieldMask = 0#32) (addr : DmaAddr) {size : ℕ} (hpos : 0 < size)
    (hroom : j + descs size ≤ n) : ∃ rest s',
    writeSplit cmdType (s.setAddr (slot n b j) addr) (slot n b j) addr size =
      (slot n b (j + descs size - 1), rest, s') ∧ 0 < rest ∧ rest ≤ maxDataPerTxd ∧
      Pending n b s' (j + descs size - 1) rest (done ++ region addr size) := by
  have hdescs := descs_pos hpos
  have hsplit := writeSplit_pending hfree hpos (h.start hcount (by omega) addr size) hroom
  rwa [DescRing.setAddr, modifyDesc_self] at hsplit

theorem writeLoop_pending (dma : ℕ → Option DmaAddr) (hfree : cmdType &&& cmdFieldMask = 0#32)
    (frags : List ℕ) (hfrags : ∀ f ∈ frags, 0 < f) {e size k : ℕ}
    (h : Filled n b s.desc j done) (hcount : s.st.ring.count = n) (hpos : 0 < size)
    (hroom : j + (descs size + (frags.map descs).sum) ≤ n)
    (hall : ∀ m ≤ frags.length, (dma (k + m)).isSome) : ∃ d rest s',
    writeLoop dma cmdType frags s (slot n b j) e size k = (true, slot n b d, rest, s') ∧
      d + 1 = j + (descs size + (frags.map descs).sum) ∧ 0 < rest ∧ rest ≤ maxDataPerTxd ∧
      Pending n b s' d rest (done ++ mappedBytes dma k (size :: frags)) := by
  -- on the fragments that are left after the part at hand
  induction frags generalizing s j done e size k with
  | nil =>
    have hdescs := descs_pos hpos
    obtain ⟨addr, haddr⟩ := isSome_iff_exists.mp (hall 0 (Nat.le_refl _))
    rw [Nat.add_zero] at haddr
    rw [map_nil, sum_nil, Nat.add_zero] at hroom ⊢
    obtain ⟨rest, s', heq, hrest⟩ := Filled.split (s := { s with st := s.st.recordMap e size })
      h hcount hfree addr hpos hroom
    refine ⟨j + descs size - 1, rest, s', ?_, by omega, ?_⟩
    · rw [writeLoop, haddr]
      exact congrArg (Prod.mk true) heq
    · rwa [mappedBytes, mappedBytes, haddr, getD_some, append_nil]
  | cons frag frags ih =>
    have hdescs := descs_pos hpos
    have hfrag : 0 < frag := hfrags frag (mem_cons_self ..)
    have hfdescs := descs_pos hfrag
    obtain ⟨addr, haddr⟩ := isSome_iff_exists.mp (hall 0 (Nat.zero_le _))
    rw [Nat.add_zero] at haddr
    rw [map_cons, sum_cons] at hroom ⊢
    obtain ⟨rest, s1, heq, hrest, hmax, hpend⟩ :=
      Filled.split (s := { s with st := s.st.recordMap e size }) h hcount hfree addr hpos
        (by omega)
    -- the last piece of the part is finished, and the next descriptor begins the next part
    obtain ⟨done', hfilled, hbytes⟩ := hpend.filled
    have hclosed := hfilled.close (by omega) hfree hrest hmax
    rw [hbytes, show j + descs size - 1 + 1 = j + descs size by omega] at hclosed
    have hbegin := hclosed.write (Nat.le_refl _) (show j + descs size < n by omega) fun d =>
      { d with olinfoStatus := 0 }
    obtain ⟨d, rest', s', heq', hd, hr⟩ := ih (fun f hf => hfrags f (mem_cons_of_mem _ hf))
      (s := (s1.setCmd (slot n b (j + descs size - 1))
        (cmdType ^^^ BitVec.ofNat 32 rest)).setOlinfo (slot n b (j + descs size)) 0)
      (e := slot n b (j + descs size)) (k := k + 1) hbegin hpend.count hfrag (by omega)
      fun m hm => by
        rw [Nat.add_assoc, Nat.add_comm 1 m]
        exact hall (m + 1) (Nat.succ_le_succ hm)
    refine ⟨d, rest', s', ?_, by omega, ?_⟩
    · have hnext : next s.st.ring.count (slot n b (j + descs size - 1)) =
          slot n b (j + descs size) := by
        rw [hcount, next_slot (by omega), show j + descs size - 1 + 1 = j + descs size by omega]
      have hsum : (frag :: frags).sum ≠ 0 := by
        rw [sum_cons]
        omega
      rw [← heq', ← hnext, writeLoop, haddr]
      dsimp only
      rw [if_neg hsum, heq]
      rfl
    · rw [mappedBytes, haddr, getD_some, ← List.append_assoc]
      exact hr

theorem writeLoop_failed {dma : ℕ → Option DmaAddr} (cmdType : U32) (frags : List ℕ)
    (hfrags : ∀ f ∈ frags, 0 < f) (s : DescRing) (i e size : ℕ) {k m : ℕ} (hm : m ≤ frags.length)
    (hnone : dma (k + m) = none) :
    (writeLoop dma cmdType frags s i e size k).1 = false := by
  induction frags generalizing s i e size k m with
  | nil =>
    rw [Nat.le_zero.mp hm, Nat.add_zero] at hnone
    rw [writeLoop, hnone]
  | cons frag frags ih =>
    rw [writeLoop]
    cases hk : dma k with
    | none => rfl
    | some addr =>
      -- the failing mapping is one of the later ones
      obtain ⟨m, rfl⟩ : ∃ m', m = m' + 1 := Nat.exists_eq_succ_of_ne_zero (by
        rintro rfl
        cases hk.symm.trans hnone)
      have hsum : (frag :: frags).sum ≠ 0 := by
        have := hfrags frag (mem_cons_self ..)
        rw [sum_cons]
        omega
      dsimp only
      rw [if_neg hsum]
      refine ih (fun f hf => hfrags f (mem_cons_of_mem _ hf)) _ _ _ _
        (Nat.le_of_succ_le_succ hm) ?_
      rwa [Nat.add_assoc, Nat.add_comm 1 m]

end Loops

/-- **The packet is described by `m` consecutive descriptors from `b` on.** -/
structure Described (n b m : ℕ) (desc : ℕ → TxDesc) (skb : Skb) (dma : ℕ → Option DmaAddr) :
    Prop where
  /-- The descriptors are different, and not more than were counted. -/
  room : m < n
  counted : m ≤ skb.useCount
  len : ∀ k < m, 1 ≤ (desc (slot n b k)).dtalen ∧ (desc (slot n b k)).dtalen ≤ 16384
  bytes : ((List.range m).flatMap fun k => (desc (slot n b k)).bytes) = skb.bytes dma
  eop : ∀ k < m, (desc (slot n b k)).eop = decide (k + 1 = m)
  rs : ∀ k < m, (desc (slot n b k)).rs = decide (k + 1 = m)

/-- What was mapped was unmapped once, and the ring goes on where it was. -/
structure Undone (s s' : TxState) : Prop where
  nextToUse : s'.ring.nextToUse = s.ring.nextToUse
  unmapped : ∃ new : Multiset (ℕ × ℕ), new.Nodup ∧
    (s'.log.mapped : Multiset (ℕ × ℕ)) = new + s.log.mapped ∧
    (s'.log.unmapped : Multiset (ℕ × ℕ)) = new + s.log.unmapped

/-- It is described by its descriptors, or has left nothing behind. -/
def CoversPacket (s : DescRing) (skb : Skb) (p : TxPrep) (dma : ℕ → Option DmaAddr) : Prop :=
  ((∀ k ≤ skb.frags.length, (dma k).isSome) ∧ ∃ s' m, sendFrame s skb p dma = some (.sent, s') ∧
      Described s.st.ring.count (slot s.st.ring.count s.st.ring.nextToUse p.offload.descs) m s'.desc
        skb dma ∧
      s'.st.ring.nextToUse = slot s.st.ring.count s.st.ring.nextToUse (p.offload.descs + m)) ∨
    ((∃ k ≤ skb.frags.length, dma k = none) ∧
      ∃ s', sendFrame s skb p dma = some (.failed, s') ∧ Undone s.st s'.st)

/-- What is not in use is free. -/
structure TxState.Ready (s : TxState) : Prop where
  count_lt : s.ring.count < 2 ^ 16
  clean_lt : s.ring.nextToClean < s.ring.count
  use_lt : s.ring.nextToUse < s.ring.count
  free : ∀ k, dist s.ring.count s.ring.nextToClean s.ring.nextToUse ≤ k → k < s.ring.count →
    (s.ring.buf (slot s.ring.count s.ring.nextToClean k)).Free
  numbered : Numbered s.log.mapped

theorem TxInv.ready {r : TxRun} (h : TxInv r) : r.st.Ready where
  count_lt := h.count_lt
  clean_lt := h.clean_lt
  use_lt := by
    rw [h.use]
    exact slot_lt (Nat.zero_lt_of_lt h.clean_lt) ..
  free := by
    rw [h.use, dist_slot h.clean_lt h.room]
    exact h.free
  numbered := h.numbered

section Packet

variable {s : DescRing} {skb : Skb} {p : TxPrep} {dma : ℕ → Option DmaAddr}

def TxPrep.noted (p : TxPrep) (s : DescRing) (skb : Skb) : DescRing :=
  let s := { s with st := s.st.modifyBuf s.st.ring.nextToUse fun b =>
    { b with skb := some skb.id } }
  match p.context with
  | none => s
  | some w => writeCtxtdesc s w

theorem TxPrep.noted_count (p : TxPrep) (s : DescRing) (skb : Skb) :
    (p.noted s skb).st.ring.count = s.st.ring.count := by
  rw [TxPrep.noted]
  cases p.context <;> rfl

theorem TxPrep.noted_nextToUse (p : TxPrep) (skb : Skb)
    (huse : s.st.ring.nextToUse < s.st.ring.count) : (p.noted s skb).st.ring.nextToUse =
      slot s.st.ring.count s.st.ring.nextToUse p.offload.descs := by
  rw [TxPrep.noted, TxPrep.offload]
  cases p.context with
  | none => exact (slot_zero huse).symm
  | some w => exact txCtxtdesc_nextToUse huse

theorem sendFrame_of_room (hroom : ¬ s.st.ring.maybeStopTx (skb.useCount + 3)) :
    sendFrame s skb p dma = (writeMap (p.noted s skb) s.st.ring.nextToUse skb p.txFlags p.hdrLen
      dma).map fun r => (if r.1 then .sent else .failed, r.2) := by
  cases hcontext : p.context with
  | none => simp only [sendFrame, if_neg hroom, TxPrep.noted, hcontext]
  | some w => simp only [sendFrame, if_neg hroom, TxPrep.noted, hcontext]

theorem Pending.described {n b d rest : ℕ} {cmdType : U32}
    (h : Pending n b s d rest (skb.bytes dma))
    (hfree : cmdType &&& cmdFieldMask = 0#32) (hpos : 0 < rest) (hmax : rest ≤ maxDataPerTxd)
    (hd : d + 1 < n) (hcounted : d + 1 ≤ skb.useCount) :
    Described n b (d + 1) (s.setCmd (slot n b d)
      (cmdType ||| (BitVec.ofNat 32 rest ||| txdCmd))).desc skb dma := by
  obtain ⟨done, hfilled, hdone⟩ := h.filled
  obtain ⟨hold, hcmd, hbytes⟩ := hfilled.command (Nat.lt_of_succ_lt hd)
    (cmdType ||| (BitVec.ofNat 32 rest ||| txdCmd))
  obtain ⟨hdta, heop, hrs⟩ := fields_of_or hfree hmax hcmd
  refine ⟨hd, hcounted, ?_, (hbytes rest hdta).trans hdone, fun k hk => ?_, fun k hk => ?_⟩
  · exact Nat.forall_lt_succ_right.mpr ⟨hold.len, hdta.symm ▸ hpos, hdta.symm ▸ hmax⟩
  · rcases Nat.lt_succ_iff_lt_or_eq.mp hk with hk | rfl
    · rw [(hold.unmarked k hk).1, decide_eq_false (by omega)]
    · rw [heop, decide_eq_true rfl]
  · rcases Nat.lt_succ_iff_lt_or_eq.mp hk with hk | rfl
    · rw [(hold.unmarked k hk).2, decide_eq_false (by omega)]
    · rw [hrs, decide_eq_true rfl]

theorem writeMap_described {n b : ℕ} (hcount : s.st.ring.count = n)
    (huse : s.st.ring.nextToUse = b) (hb : b < n) (hskb : skb.WellFormed) (hfit : skb.Countable)
    (hroom : skb.dataDescs < n) (hall : ∀ k ≤ skb.frags.length, (dma k).isSome) (first : ℕ)
    (txFlags hdrLen : U32) : ∃ s' m, writeMap s first skb txFlags hdrLen dma = some (true, s') ∧
      Described n b m s'.desc skb dma ∧ s'.st.ring.nextToUse = slot n b m := by
  subst huse
  have hfree := txCmdType_free txFlags
  obtain ⟨d, rest, s', heq, hd, hpos, hmax, hpend⟩ := writeLoop_pending dma (k := 0)
    (s := s.setOlinfo s.st.ring.nextToUse (txOlinfoStatus txFlags
      (BitVec.ofNat 32 (skb.headlen + skb.frags.sum) - hdrLen))) (e := first)
    hfree skb.frags hskb.2 (filled_zero n s.st.ring.nextToUse _) hcount hskb.1
    ((Nat.zero_add _).trans_le (Nat.le_of_lt hroom))
    fun m hm => (Nat.zero_add m).symm ▸ hall m hm
  rw [Nat.zero_add] at hd
  rw [slot_zero hb] at heq
  have hdesc : Described n s.st.ring.nextToUse (d + 1) _ skb dma := hpend.described hfree hpos hmax
    (hd.trans_lt hroom) (hd.trans (useCount_eq hfit).symm).le
  rw [writeMap]
  rw [heq]
  refine ⟨_, d + 1, rfl, hdesc, ?_⟩
  change next s'.st.ring.count (slot n _ d) = slot n _ (d + 1)
  rw [hpend.count, next_slot (Nat.zero_lt_of_lt hb)]

theorem sendFrame_failed (hskb : skb.WellFormed)
    (hstop : ¬ s.st.ring.maybeStopTx (skb.useCount + 3)) {k : ℕ} (hk : k ≤ skb.frags.length)
    (hnone : dma k = none) {r : XmitResult × DescRing} (h : sendFrame s skb p dma = some r) :
    r.1 = .failed := by
  rw [sendFrame_of_room hstop, writeMap] at h
  generalize p.noted s skb = s1 at h
  have hloop := writeLoop_failed (txCmdType p.txFlags) (k := 0) skb.frags hskb.2
    (s1.setOlinfo s1.st.ring.nextToUse (txOlinfoStatus p.txFlags
      (BitVec.ofNat 32 (skb.headlen + skb.frags.sum) - p.hdrLen)))
    s1.st.ring.nextToUse s.st.ring.nextToUse skb.headlen hk ((Nat.zero_add k).symm ▸ hnone)
  generalize writeLoop dma _ skb.frags _ _ _ skb.headlen 0 = w at hloop h
  obtain ⟨ok, i, size, s'⟩ := w
  change ok = false at hloop
  rw [hloop] at h
  dsimp only at h
  rw [Option.map_map] at h
  obtain ⟨st, -, rfl⟩ := map_eq_some_iff.mp h
  rfl

theorem sendFrame_covers (p : TxPrep) (dma : ℕ → Option DmaAddr) (hs : s.st.Ready)
    (hskb : skb.WellFormed) (hfit : skb.Countable)
    (hstop : ¬ s.st.ring.maybeStopTx (skb.useCount + 3)) : CoversPacket s skb p dma := by
  have hpos := Nat.zero_lt_of_lt hs.clean_lt
  have hdist := dist_lt hpos s.st.ring.nextToClean s.st.ring.nextToUse
  have huse := (slot_dist hs.clean_lt hs.use_lt).symm
  by_cases hall : ∀ k ≤ skb.frags.length, (dma k).isSome
  · have hroom := room_of_not_stopped hfit hs.count_lt hs.clean_lt hdist huse hstop
    obtain ⟨s', m, heq, hdesc, hnext⟩ := writeMap_described (p.noted_count s skb)
      (p.noted_nextToUse skb hs.use_lt) (slot_lt hpos ..) hskb hfit (by omega) hall
      s.st.ring.nextToUse p.txFlags p.hdrLen
    refine .inl ⟨hall, s', m, ?_, hdesc, hnext.trans (slot_slot ..)⟩
    rw [sendFrame_of_room hstop, heq]
    rfl
  · obtain ⟨k, hk, hnone⟩ : ∃ k ≤ skb.frags.length, dma k = none := by
      push Not at hall
      obtain ⟨k, hk, hnone⟩ := hall
      exact ⟨k, hk, not_isSome_iff_eq_none.mp hnone⟩
    refine .inr ⟨⟨k, hk, hnone⟩, ?_⟩
    -- the result without descriptors comes from one with them, which is the error return
    have hcore : ∀ r st, xmitFrameRing s.st skb p.offload (mapsOk dma) = some (r, st) →
        r = .failed ∧ ∃ s', sendFrame s skb p dma = some (.failed, s') ∧ s'.st = st :=
      fun r st heq => by
        rw [← sendFrame_core] at heq
        obtain ⟨⟨r', s'⟩, hsend, hr⟩ := map_eq_some_iff.mp heq
        obtain ⟨rfl, rfl⟩ := Prod.mk.inj hr
        obtain rfl : r' = .failed := sendFrame_failed hskb hstop hk hnone hsend
        exact ⟨rfl, s', hsend, rfl⟩
    rcases xmitFrameRing_spec p.offload (mapsOk dma) hskb hfit hs.count_lt hs.clean_lt hdist huse
      hs.free hs.numbered with heq | ⟨m, new, st, -, ⟨heq, -, -⟩ | ⟨r, -, heq, hnothing⟩⟩
    · exact nomatch (hcore _ _ heq).1
    · exact nomatch (hcore _ _ heq).1
    · obtain ⟨-, s', hsend, rfl⟩ := hcore _ _ heq
      refine ⟨s', hsend, hnothing.nextToUse, new, ?_, hnothing.mapped, hnothing.unmapped⟩
      have hnodup : (s'.st.log.mapped : Multiset (ℕ × ℕ)).Nodup := hnothing.numbered.nodup
      rw [hnothing.mapped] at hnodup
      exact (Multiset.nodup_add.mp hnodup).1

end Packet

/-- **The descriptors of a packet cover it exactly**: every packet that passes the check for room,
in every state a run reaches, is covered by its descriptors or leaves nothing behind. -/
theorem tx_map_covers :
    (∀ (r : TxRun) (es : List TxEvent), r.Start → (∀ e ∈ es, e.Legal) →
      EventRun.After txStep (Ended fun r => r.st.Ready) (some r) es) ∧
    ∀ (s : DescRing) (skb : Skb) (p : TxPrep) (dma : ℕ → Option DmaAddr), s.st.Ready →
      skb.WellFormed → skb.Countable → ¬ s.st.ring.maybeStopTx (skb.useCount + 3) →
        CoversPacket s skb p dma := by
  refine ⟨fun r es hr hes => ?_, fun s skb p dma hs hskb hfit hstop => ?_⟩
  · exact hr.after (fun _ h => h.ready) hes
  · exact sendFrame_covers p dma hs hskb hfit hstop

def freshDesc : DescRing := ⟨freshRun.st, fun _ => ⟨0, 0, 0⟩⟩

theorem freshDesc_ready : freshDesc.st.Ready := freshRun_start.inv.ready

theorem tx_map_covers_both :
    CoversPacket freshDesc ⟨1, 100, [20000]⟩ ⟨0x21, 54, some ⟨0, 0, 0, 0⟩⟩
      (fun k => some (BitVec.ofNat 64 (65536 * k))) ∧
    CoversPacket freshDesc ⟨2, 100, [200]⟩ ⟨0, 0, none⟩ (fun k => if k = 0 then some 0 else none) :=
  ⟨tx_map_covers.2 _ _ _ _ freshDesc_ready ⟨by decide, by decide⟩ (by decide) (by decide),
    tx_map_covers.2 _ _ _ _ freshDesc_ready ⟨by decide, by decide⟩ (by decide) (by decide)⟩

/-- A gigabyte passes the check for room and has more descriptors than were counted. -/
theorem gigabyte_not_covered : freshDesc.st.Ready ∧ gigabyteSkb.WellFormed ∧
    ¬ freshDesc.st.ring.maybeStopTx (gigabyteSkb.useCount + 3) ∧
    ¬ CoversPacket freshDesc gigabyteSkb ⟨0, 0, none⟩ fun _ => some 0 := by
  refine ⟨freshDesc_ready, ⟨by decide, by decide⟩, by decide, ?_⟩
  rintro (⟨-, s', m, -, h, -⟩ | ⟨⟨_, -, hnone⟩, -⟩)
  · -- the count is 0 in 16 bits, so there is no descriptor for the bytes
    have hcount : gigabyteSkb.useCount = 0 := by decide
    obtain rfl := Nat.le_zero.mp (hcount ▸ h.counted)
    have hbytes := congrArg List.length h.bytes
    rw [Skb.bytes, mappedBytes, length_append, length_region] at hbytes
    exact absurd (show 0 = 2 ^ 30 + _ from hbytes) (by omega)
  · exact nomatch hnone

end Ixgbe
