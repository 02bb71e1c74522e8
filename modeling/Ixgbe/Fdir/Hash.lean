import Ixgbe.Fdir.Filter

/-! # The two Flow Director hashes

`ixgbe_atr_compute_sig_hash_82599` has one accumulator for the bits that both keys have in common.
The hash is linear over the bits (`loopHash_xor`). -/

namespace Ixgbe

open BitVec

def atrSignatureHashKey : U32 := 0x174D3614

def atrCommonHashKey : U32 := atrBucketHashKey &&& atrSignatureHashKey

def atrHashMask : U32 := 0x7fff

structure SigHashes where
  sig : U32
  bucket : U32
  common : U32

/-- Bit `k` of the keys, and the dword that is shifted by `n`. -/
def sigHashWord (k n : ℕ) (w : U32) (h : SigHashes) : SigHashes :=
  if atrCommonHashKey.getLsbD k then { h with common := h.common ^^^ (w >>> n) }
  else if atrBucketHashKey.getLsbD k then { h with bucket := h.bucket ^^^ (w >>> n) }
  else if atrSignatureHashKey.getLsbD k then { h with sig := h.sig ^^^ (w <<< (16 - n)) }
  else h

def sigHashIteration (lo hi : U32) (h : SigHashes) (n : ℕ) : SigHashes :=
  sigHashWord (n + 16) n hi (sigHashWord n n lo h)

def atrSigHashes (input common : U32) : SigHashes :=
  let flowVmVlan := ntohl input
  let hi := ntohl common
  let lo := (hi >>> 16) ||| (hi <<< 16)
  let hi := hi ^^^ (flowVmVlan ^^^ (flowVmVlan >>> 16))
  let h := sigHashIteration lo hi ⟨0, 0, 0⟩ 0
  -- bit 0 of the stream must not be processed, so the VLAN joins the low dword only now
  let lo := lo ^^^ (flowVmVlan ^^^ (flowVmVlan <<< 16))
  (List.range' 1 15).foldl (sigHashIteration lo hi) h

def atrComputeSigHash (input common : U32) : U32 :=
  let h := atrSigHashes input common
  let bucket := (h.bucket ^^^ h.common) &&& atrHashMask
  let sig := (h.sig ^^^ (h.common <<< 16)) &&& (atrHashMask <<< 16)
  sig ^^^ bucket

/-- Bit `k` of a key, and the dword that is shifted by `n`. -/
def loopHashWord (key : U32) (k n : ℕ) (w hash : U32) : U32 :=
  if key.getLsbD k then hash ^^^ (w >>> n) else hash

def loopHashStep (key lo hi hash : U32) (n : ℕ) : U32 :=
  loopHashWord key (n + 16) n hi (loopHashWord key n n lo hash)

/-- Bit `n` of the key adds the low dword shifted by `n`, bit `n + 16` the high dword. -/
def loopHash (key input common : U32) : U32 :=
  let flow := ntohl input
  let hi := ntohl common ^^^ (flow ^^^ (flow >>> 16))
  let lo := (ntohl common >>> 16) ||| (ntohl common <<< 16)
  (List.range' 1 15).foldl (loopHashStep key (lo ^^^ (flow ^^^ (flow <<< 16))) hi)
    (loopHashStep key lo hi 0 0)

def bucketOf (hash : U32) : U16 := (hash &&& 0x1FFF).setWidth 16

structure SigHashes.Agree (h : SigHashes) (b s : U32) : Prop where
  bucket : h.bucket ^^^ h.common = b
  sig : ∀ i < 15, (h.sig.getLsbD (i + 16) ^^ h.common.getLsbD i) = s.getLsbD i

theorem getLsbD_shiftLeft_sub (w : U32) {n i : ℕ} (hn : n ≤ 16) (hi : i < 15) :
    (w <<< (16 - n)).getLsbD (i + 16) = (w >>> n).getLsbD i := by
  rw [getLsbD_shiftLeft, getLsbD_ushiftRight, decide_eq_true (by omega),
    decide_eq_false (by omega), show i + 16 - (16 - n) = n + i by omega]
  rfl

section

variable {h : SigHashes} {b s : U32} (hag : h.Agree b s)

include hag

theorem SigHashes.Agree.word (k : ℕ) {n : ℕ} (hn : n ≤ 16) (w : U32) :
    (sigHashWord k n w h).Agree (loopHashWord atrBucketHashKey k n w b)
      (loopHashWord atrSignatureHashKey k n w s) := by
  have hcommon : atrCommonHashKey.getLsbD k =
      (atrBucketHashKey.getLsbD k && atrSignatureHashKey.getLsbD k) := getLsbD_and
  unfold sigHashWord loopHashWord
  rw [hcommon]
  cases atrBucketHashKey.getLsbD k <;> cases atrSignatureHashKey.getLsbD k
  case false.false => exact hag
  case true.false =>
    refine ⟨?_, hag.sig⟩
    change h.bucket ^^^ (w >>> n) ^^^ h.common = b ^^^ (w >>> n)
    rw [← hag.bucket, BitVec.xor_assoc, BitVec.xor_comm (w >>> n), BitVec.xor_assoc]
  case false.true =>
    refine ⟨hag.bucket, fun i hi => ?_⟩
    change ((h.sig ^^^ (w <<< (16 - n))).getLsbD (i + 16) ^^ h.common.getLsbD i) =
      (s ^^^ (w >>> n)).getLsbD i
    rw [getLsbD_xor, getLsbD_xor, getLsbD_shiftLeft_sub w hn hi, ← hag.sig i hi]
    cases h.sig.getLsbD (i + 16) <;> cases h.common.getLsbD i <;> cases (w >>> n).getLsbD i <;> rfl
  case true.true =>
    refine ⟨?_, fun i hi => ?_⟩
    · change h.bucket ^^^ (h.common ^^^ (w >>> n)) = b ^^^ (w >>> n)
      rw [← hag.bucket, BitVec.xor_assoc]
    · change (h.sig.getLsbD (i + 16) ^^ (h.common ^^^ (w >>> n)).getLsbD i) =
        (s ^^^ (w >>> n)).getLsbD i
      rw [getLsbD_xor, getLsbD_xor, ← hag.sig i hi]
      cases h.sig.getLsbD (i + 16) <;> cases h.common.getLsbD i <;>
        cases (w >>> n).getLsbD i <;> rfl

theorem SigHashes.Agree.iteration (lo hi : U32) {n : ℕ} (hn : n ≤ 16) :
    (sigHashIteration lo hi h n).Agree (loopHashStep atrBucketHashKey lo hi b n)
      (loopHashStep atrSignatureHashKey lo hi s n) :=
  (hag.word n hn lo).word (n + 16) hn hi

theorem SigHashes.Agree.foldl (lo hi : U32) {ns : List ℕ} (hns : ∀ n ∈ ns, n ≤ 16) :
    (ns.foldl (sigHashIteration lo hi) h).Agree (ns.foldl (loopHashStep atrBucketHashKey lo hi) b)
      (ns.foldl (loopHashStep atrSignatureHashKey lo hi) s) := by
  induction ns generalizing h b s with
  | nil => exact hag
  | cons n ns ih =>
    exact ih (hag.iteration lo hi (hns n List.mem_cons_self))
      fun m hm => hns m (List.mem_cons_of_mem n hm)

end

theorem agree_atrSigHashes (input common : U32) :
    (atrSigHashes input common).Agree (loopHash atrBucketHashKey input common)
      (loopHash atrSignatureHashKey input common) := by
  have hzero : SigHashes.Agree ⟨0, 0, 0⟩ 0 0 := ⟨by decide, fun i _ => by simp⟩
  exact (hzero.iteration _ _ (Nat.zero_le 16)).foldl _ _ (by decide)

theorem getLsbD_atrHashMask (i : ℕ) : atrHashMask.getLsbD i = decide (i < 15) := by
  by_cases h : i < 32
  · have hall : ∀ j < 32, atrHashMask.getLsbD j = decide (j < 15) := by decide
    exact hall i h
  · rw [getLsbD_of_ge _ _ (Nat.not_lt.mp h), decide_eq_false (by omega)]

theorem getLsbD_atrComputeSigHash (input common : U32) (i : ℕ) :
    (atrComputeSigHash input common).getLsbD i =
      if i < 15 then (loopHash atrBucketHashKey input common).getLsbD i
      else if 16 ≤ i ∧ i < 31 then (loopHash atrSignatureHashKey input common).getLsbD (i - 16)
      else false := by
  have hag := agree_atrSigHashes input common
  unfold atrComputeSigHash
  dsimp only
  rw [hag.bucket, getLsbD_xor, getLsbD_and, getLsbD_and, getLsbD_atrHashMask,
    getLsbD_shiftLeft, getLsbD_atrHashMask]
  by_cases hlow : i < 15
  · rw [if_pos hlow, decide_eq_true hlow, decide_eq_true (show i < 16 by omega)]
    simp
  · rw [if_neg hlow, decide_eq_false hlow, Bool.and_false, Bool.xor_false]
    by_cases hhigh : 16 ≤ i ∧ i < 31
    · have hsig := hag.sig (i - 16) (by omega)
      rw [Nat.sub_add_cancel hhigh.1] at hsig
      rw [if_pos hhigh, ← hsig, getLsbD_xor, getLsbD_shiftLeft,
        decide_eq_true (show i < 32 by omega), decide_eq_false (show ¬ i < 16 by omega),
        decide_eq_true (show i - 16 < 15 by omega)]
      simp
    · rw [if_neg hhigh]
      by_cases h15 : i < 16
      · rw [decide_eq_true h15]
        simp
      · rw [decide_eq_false (show ¬ i - 16 < 15 by omega)]
        simp

def foldDwords (stream : List U32) : U32 × U32 := (stream.headD 0, stream.tail.foldl (· ^^^ ·) 0)

theorem bktHash_atrComputePerfectHash (input mask : AtrInput) :
    (atrComputePerfectHash input mask).bktHash =
      bucketOf (loopHash atrBucketHashKey (foldDwords (input.and mask).dwordStream).1
        (foldDwords (input.and mask).dwordStream).2) := rfl

/-- **The two functions agree with the loop hash**, and so with each other. -/
theorem atrHashes_agree :
    (∀ input mask : AtrInput,
      let masked := List.zipWith (· &&& ·) input.dwordStream mask.dwordStream
      (atrComputePerfectHash input mask).bktHash =
        bucketOf (atrComputeSigHash (masked.headD 0) (masked.tail.foldl (· ^^^ ·) 0))) ∧
    ∀ input common : U32,
      (atrComputeSigHash input common).extractLsb' 0 15 =
          (loopHash atrBucketHashKey input common).extractLsb' 0 15 ∧
        (atrComputeSigHash input common).extractLsb' 16 15 =
          (loopHash atrSignatureHashKey input common).extractLsb' 0 15 ∧
        (atrComputeSigHash input common).getLsbD 15 = false ∧
        (atrComputeSigHash input common).getLsbD 31 = false := by
  refine ⟨fun input mask => ?_, fun input common => ⟨?_, ?_, ?_, ?_⟩⟩
  · intro masked
    rw [bktHash_atrComputePerfectHash, AtrInput.dwordStream_and]
    change bucketOf (loopHash atrBucketHashKey (masked.headD 0) (masked.tail.foldl (· ^^^ ·) 0)) = _
    refine congrArg (BitVec.setWidth 16) (eq_of_getLsbD_eq fun i hi => ?_)
    rw [getLsbD_and, getLsbD_and, getLsbD_atrComputeSigHash]
    by_cases hlow : i < 15
    · rw [if_pos hlow]
    · have hmask : ∀ j < 32, ¬ j < 15 → (0x1FFF : U32).getLsbD j = false := by decide
      rw [hmask i hi hlow, Bool.and_false, Bool.and_false]
  · refine eq_of_getLsbD_eq fun i hi => ?_
    rw [getLsbD_extractLsb', getLsbD_extractLsb', Nat.zero_add,
      getLsbD_atrComputeSigHash, if_pos hi]
  · refine eq_of_getLsbD_eq fun i hi => ?_
    rw [getLsbD_extractLsb', getLsbD_extractLsb', Nat.zero_add,
      getLsbD_atrComputeSigHash, if_neg (by omega), if_pos (by omega), Nat.add_sub_cancel_left]
  · rw [getLsbD_atrComputeSigHash, if_neg (by decide), if_neg (by decide)]
  · rw [getLsbD_atrComputeSigHash, if_neg (by decide), if_neg (by decide)]

/-- The bytes of a dword in reverse order. -/
theorem getLsbD_ntohl (x : U32) {i : ℕ} (hi : i < 32) :
    (ntohl x).getLsbD i = x.getLsbD (if i < 8 then 24 + i else if i < 16 then 8 + i
      else if i < 24 then i - 8 else i - 24) := by
  have hbit : ∀ i < 32, (0x00FF0000 : U32).getLsbD (8 + i) = decide (8 ≤ i ∧ i < 16) ∧
      (0x0000FF00 : U32).getLsbD (i - 8) = decide (16 ≤ i ∧ i < 24) := by decide
  have hge : ¬ i < 8 → x.getLsbD (24 + i) = false := fun h => getLsbD_of_ge x _ (by omega)
  rw [ntohl, getLsbD_or, getLsbD_or, getLsbD_or, getLsbD_ushiftRight, getLsbD_ushiftRight,
    getLsbD_shiftLeft, getLsbD_shiftLeft, getLsbD_and, getLsbD_and, (hbit i hi).1, (hbit i hi).2]
  split_ifs with h8 h16 h24
  · simp [h8, show ¬ 8 ≤ i by omega, show i < 24 by omega]
  · simp [h8, h16, hge h8, show 8 ≤ i by omega, show i < 24 by omega, show ¬ 16 ≤ i by omega]
  · simp [h8, h16, h24, hge h8, hi, show 16 ≤ i by omega]
  · simp [h8, h16, h24, hge h8, hi]

theorem ntohl_xor (x y : U32) : ntohl (x ^^^ y) = ntohl x ^^^ ntohl y := by
  refine eq_of_getLsbD_eq fun i hi => ?_
  rw [getLsbD_xor, getLsbD_ntohl _ hi, getLsbD_ntohl _ hi, getLsbD_ntohl _ hi, getLsbD_xor]

/-- The two halves exchanged. -/
theorem halves_xor (x y : U32) : ((x ^^^ y) >>> 16 ||| (x ^^^ y) <<< 16) =
    (x >>> 16 ||| x <<< 16) ^^^ (y >>> 16 ||| y <<< 16) := by
  refine eq_of_getLsbD_eq fun i hi => ?_
  simp only [getLsbD_xor, getLsbD_or, getLsbD_ushiftRight, getLsbD_shiftLeft]
  by_cases hlow : i < 16
  · simp [hlow]
  · rw [getLsbD_of_ge x (16 + i) (by omega), getLsbD_of_ge y (16 + i) (by omega)]
    simp [hlow, hi]

theorem loopHashWord_xor (key : U32) (k n : ℕ) (w w' h h' : U32) :
    loopHashWord key k n (w ^^^ w') (h ^^^ h') =
      loopHashWord key k n w h ^^^ loopHashWord key k n w' h' := by
  unfold loopHashWord
  split_ifs
  · rw [ushiftRight_xor_distrib]
    ac_rfl
  · rfl

theorem loopHashSteps_xor (key lo hi lo' hi' : U32) (ns : List ℕ) (h h' : U32) :
    ns.foldl (loopHashStep key (lo ^^^ lo') (hi ^^^ hi')) (h ^^^ h') =
      ns.foldl (loopHashStep key lo hi) h ^^^ ns.foldl (loopHashStep key lo' hi') h' := by
  induction ns generalizing h h' with
  | nil => rfl
  | cons n ns ih =>
    rw [List.foldl_cons, loopHashStep, loopHashWord_xor, loopHashWord_xor]
    exact ih ..

/-- **The hash is linear.** -/
theorem loopHash_xor (key x x' c c' : U32) :
    loopHash key (x ^^^ x') (c ^^^ c') = loopHash key x c ^^^ loopHash key x' c' := by
  have hshuffle (c c' x x' y y' : U32) : c ^^^ c' ^^^ (x ^^^ x' ^^^ (y ^^^ y')) =
      (c ^^^ (x ^^^ y)) ^^^ (c' ^^^ (x' ^^^ y')) := by ac_rfl
  have hhi (x x' c c' : U32) : c ^^^ c' ^^^ (x ^^^ x' ^^^ (x ^^^ x') >>> 16) =
      (c ^^^ (x ^^^ x >>> 16)) ^^^ (c' ^^^ (x' ^^^ x' >>> 16)) := by
    rw [ushiftRight_xor_distrib, hshuffle]
  have hlo (x x' c c' : U32) : c ^^^ c' ^^^ (x ^^^ x' ^^^ (x ^^^ x') <<< 16) =
      (c ^^^ (x ^^^ x <<< 16)) ^^^ (c' ^^^ (x' ^^^ x' <<< 16)) := by
    rw [shiftLeft_xor_distrib, hshuffle]
  have hfirst (lo lo' hi hi' : U32) : loopHashStep key (lo ^^^ lo') (hi ^^^ hi') 0 0 =
      loopHashStep key lo hi 0 0 ^^^ loopHashStep key lo' hi' 0 0 :=
    loopHashSteps_xor key lo hi lo' hi' [0] 0 0
  simp only [loopHash, ntohl_xor, halves_xor, hhi, hlo, hfirst, loopHashSteps_xor]

theorem foldl_zipWith_xor {l l' : List U32} (h : l.length = l'.length) (x y : U32) :
    (List.zipWith (· ^^^ ·) l l').foldl (· ^^^ ·) (x ^^^ y) =
      l.foldl (· ^^^ ·) x ^^^ l'.foldl (· ^^^ ·) y := by
  induction l generalizing l' x y with
  | nil =>
    rw [List.length_nil, eq_comm, List.length_eq_zero_iff] at h
    rw [h]
    rfl
  | cons a l ih =>
    cases l' with
    | nil => cases h
    | cons b l' =>
      rw [List.zipWith_cons_cons, List.foldl_cons, List.foldl_cons, List.foldl_cons,
        ← ih (Nat.succ.inj h)]
      congr 1
      ac_rfl

end Ixgbe
