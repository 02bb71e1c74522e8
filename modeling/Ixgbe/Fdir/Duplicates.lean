import Ixgbe.Fdir.Hash
import Ixgbe.Fdir.SortedMap

/-! # Rules that exist already

`ixgbe_match_ethtool_fdir_entry` compares buckets of 13 bits. Two matches share theirs if their
difference hashes to 0, as a match and its reverse do (`bucket_swapIps`). -/

namespace Ixgbe

/-- The fields of two matches agree; the bucket is not one of them. -/
def AtrInput.SameMatch (a b : AtrInput) : Prop := { a with bktHash := 0 } = { b with bktHash := 0 }

instance (a b : AtrInput) : Decidable (a.SameMatch b) := inferInstanceAs (Decidable (_ = _))

/-- **The bucket of a match**, as the loop hash has it. -/
def AtrInput.bucket (a : AtrInput) : U16 :=
  bucketOf (loopHash atrBucketHashKey (foldDwords a.dwordStream).1 (foldDwords a.dwordStream).2)

/-- A rule of the list has the fields of a masked match, and its action. -/
def FdirState.Lists (s : FdirState) (a : AtrInput) (action : U64) : Prop :=
  ∃ r ∈ s.filterList, r.filter.SameMatch a ∧ r.action = action

def AtrInput.swapIps (a : AtrInput) : AtrInput := { a with srcIp := a.dstIp, dstIp := a.srcIp }

theorem AtrInput.bucket_swapIps (a : AtrInput) : a.swapIps.bucket = a.bucket := by
  have hperm : a.swapIps.dwordStream.tail.Perm a.dwordStream.tail :=
    List.perm_append_comm.append_right _
  have hfold : a.swapIps.dwordStream.tail.foldl (· ^^^ ·) 0 =
      a.dwordStream.tail.foldl (· ^^^ ·) 0 :=
    hperm.foldl_eq' (fun x _ y _ z => by
      rw [BitVec.xor_assoc, BitVec.xor_comm x y, ← BitVec.xor_assoc]) 0
  unfold AtrInput.bucket foldDwords
  rw [hfold]
  rfl

instance (s : FdirState) (a : AtrInput) (action : U64) : Decidable (s.Lists a action) :=
  inferInstanceAs (Decidable (∃ r ∈ s.filterList, _))

def AtrInput.xor (a b : AtrInput) : AtrInput := a.zip (fun _ => (· ^^^ ·)) b

namespace AtrInput

variable (a b m : AtrInput)

theorem bucket_xor : (a.xor b).bucket = a.bucket ^^^ b.bucket := by
  have hstream : (a.xor b).dwordStream = List.zipWith (· ^^^ ·) a.dwordStream b.dwordStream :=
    dwordStream_zip (fun _ _ _ _ => BitVec.xor_append)
      (fun _ _ _ _ => BitVec.extractLsb'_xor.symm) a b
  have hlen : a.dwordStream.tail.length = b.dwordStream.tail.length := by simp [dwordStream]
  have hfold : foldDwords (a.xor b).dwordStream =
      ((foldDwords a.dwordStream).1 ^^^ (foldDwords b.dwordStream).1,
        (foldDwords a.dwordStream).2 ^^^ (foldDwords b.dwordStream).2) := by
    rw [hstream]
    exact congrArg (Prod.mk _) (foldl_zipWith_xor hlen 0 0)
  have hmask (x y m : U32) : (x ^^^ y) &&& m = (x &&& m) ^^^ (y &&& m) :=
    BitVec.eq_of_getLsbD_eq fun i _ => by simp [Bool.and_xor_distrib_right]
  rw [bucket, hfold, loopHash_xor, bucketOf, hmask]
  exact BitVec.setWidth_xor

theorem and_xor : (a.xor b).and m = (a.and m).xor (b.and m) := by
  have hmask {n : ℕ} (x y m : BitVec n) : (x ^^^ y) &&& m = (x &&& m) ^^^ (y &&& m) :=
    BitVec.eq_of_getLsbD_eq fun i _ => by simp [Bool.and_xor_distrib_right]
  simp only [AtrInput.xor, AtrInput.and, zip, hmask, mk.injEq, true_and, and_true]
  constructor <;> exact Vector.ext fun i hi => by simp [hmask]

theorem xor_cancel : (a.xor b).xor a = b := by
  have hself {n : ℕ} (x y : BitVec n) : x ^^^ y ^^^ x = y := by
    rw [BitVec.xor_comm x, BitVec.xor_assoc, BitVec.xor_self, BitVec.xor_zero]
  cases b
  simp only [AtrInput.xor, zip, hself, mk.injEq, true_and, and_true]
  constructor <;> exact Vector.ext fun i hi => by simp [hself]

variable {a b}

/-- Two matches agree if their difference is no match at all. -/
theorem sameMatch_iff_xor : a.SameMatch b ↔ (a.xor b).SameMatch zero := by
  have hvec (v w : Vector U32 4) :
      Vector.zipWith (· ^^^ ·) v w = Vector.replicate 4 0#32 ↔ v = w := by
    simp [Vector.ext_iff, BitVec.xor_eq_zero_iff]
  simp [SameMatch, AtrInput.xor, zip, zero, hvec]

end AtrInput

/-- **No match within the mask but the empty one hashes to 0.** -/
def InjectiveOn (mask : AtrInput) : Prop :=
  ∀ d : AtrInput, (d.and mask).bucket = 0 → (d.and mask).SameMatch .zero

/-- The rule was hashed under the mask. -/
def FdirFilter.Hashed (r : FdirFilter) (mask : AtrInput) : Prop :=
  ∃ f, r.filter = atrComputePerfectHash f mask

section Add

variable {c : FdirConfig} {alloc : Bool} {s : FdirState} {fsp : FlowSpec} {queue : U8}
  {filter mask : AtrInput}

theorem prepareEntry_refused_iff (hcheck : checkFlowSpec c alloc fsp = .ok (queue, filter, mask))
    (hne : s.filterList ≠ []) (hmask : s.mask = mask) :
    (prepareEntry c alloc s fsp).2 = .error eInval ↔
      matchEthtoolFdirEntry s (fsp.rule filter mask) = true := by
  have happly : applyMask c.cloudMode s mask = (s, success) := by
    rw [applyMask, if_neg hne, if_neg (not_not.mpr hmask)]
  rw [prepareEntry, hcheck]
  dsimp only
  rw [happly]
  dsimp only
  rw [if_neg (not_not.mpr rfl)]
  split
  case isTrue hmatch =>
    exact iff_of_true rfl hmatch
  case isFalse hmatch =>
    refine iff_of_false (fun h => ?_) hmatch
    cases h

/-- A request is refused if a rule with its action differs from it by a match that hashes to 0. -/
theorem matchEthtoolFdirEntry_iff (hhash : ∀ r ∈ s.filterList, r.Hashed mask) :
    matchEthtoolFdirEntry s (fsp.rule filter mask) = true ↔
      ∃ r ∈ s.filterList, r.action = flowAction fsp.ringCookie ∧
        ∃ f, r.filter = atrComputePerfectHash f mask ∧ ((f.xor filter).and mask).bucket = 0 := by
  unfold matchEthtoolFdirEntry
  rw [List.any_eq_true]
  refine exists_congr fun r => and_congr_right fun hr => ?_
  have hdiff (f : AtrInput) (hf : r.filter = atrComputePerfectHash f mask) :
      r.filter.bktHash = (fsp.rule filter mask).filter.bktHash ↔
        ((f.xor filter).and mask).bucket = 0 := by
    rw [AtrInput.and_xor, AtrInput.bucket_xor, hf]
    exact BitVec.xor_eq_zero_iff.symm
  rw [Bool.and_eq_true, beq_iff_eq, beq_iff_eq, and_comm]
  refine and_congr_right fun _ => ⟨fun h => ?_, fun ⟨f, hf, h⟩ => (hdiff f hf).mpr h⟩
  obtain ⟨f, hf⟩ := hhash r hr
  exact ⟨f, hf, (hdiff f hf).mp h⟩

/-- A flow and its reverse differ by a match that hashes to 0. -/
theorem not_injectiveOn_of_common_bit {i : ℕ} (hi : i < 4)
    (h : mask.srcIp[i] &&& mask.dstIp[i] ≠ 0) : ¬ InjectiveOn mask := by
  intro hinj
  let e : AtrInput :=
    { AtrInput.zero with srcIp := Vector.zipWith (· &&& ·) mask.srcIp mask.dstIp }
  have hsrc (x y : U32) : x &&& y &&& x = x &&& y := by
    rw [BitVec.and_comm x, BitVec.and_assoc, BitVec.and_self]
  have hswap : e.swapIps.and mask = (e.and mask).swapIps := by
    simp only [e, AtrInput.swapIps, AtrInput.and, AtrInput.zip, AtrInput.zero, AtrInput.mk.injEq,
      true_and, and_true]
    constructor <;> exact Vector.ext fun i hi => by simp [hsrc, BitVec.and_assoc]
  have hbucket : ((e.xor e.swapIps).and mask).bucket = 0 := by
    rw [AtrInput.and_xor, hswap, AtrInput.bucket_xor, AtrInput.bucket_swapIps, BitVec.xor_self]
    rfl
  have hsame := hinj _ hbucket
  rw [AtrInput.and_xor, hswap, ← AtrInput.sameMatch_iff_xor] at hsame
  have hips : (e.and mask).srcIp[i] = (e.and mask).dstIp[i] :=
    congrArg (fun a : AtrInput => a.srcIp[i]) hsame
  simp [e, AtrInput.and, AtrInput.zip, AtrInput.zero, hsrc] at hips
  exact h hips

/-- **A refusal means that the rule exists**, in every list of rules hashed under the mask, if and
only if the hash is injective on the matches within the mask; it is not if the masks of the two
addresses have a bit in common. -/
theorem duplicate_exact_iff (c : FdirConfig) (alloc : Bool) (fsp : FlowSpec) (queue : U8)
    (filter mask : AtrInput) (hcheck : checkFlowSpec c alloc fsp = .ok (queue, filter, mask)) :
    ((∀ s : FdirState, s.filterList ≠ [] → s.mask = mask → (∀ r ∈ s.filterList, r.Hashed mask) →
        (prepareEntry c alloc s fsp).2 = .error eInval →
        s.Lists (filter.and mask) (flowAction fsp.ringCookie)) ↔ InjectiveOn mask) ∧
      ((∃ (i : ℕ) (hi : i < 4), mask.srcIp[i] &&& mask.dstIp[i] ≠ 0) → ¬ InjectiveOn mask) := by
  refine ⟨⟨fun h d hd => ?_, fun hinj s hne hmask hhash hrefused => ?_⟩,
    fun ⟨i, hi, hbit⟩ => not_injectiveOn_of_common_bit hi hbit⟩
  · -- the request meets a single rule, which differs from it by the match
    let r : FdirFilter :=
      ⟨atrComputePerfectHash (filter.xor d) mask, 0, flowAction fsp.ringCookie⟩
    let s : FdirState := ⟨[r], 1, mask, fun _ => none⟩
    have hhash : ∀ r ∈ s.filterList, r.Hashed mask := by
      intro r hr
      rw [List.mem_singleton.mp hr]
      exact ⟨_, rfl⟩
    have hrefused : (prepareEntry c alloc s fsp).2 = .error eInval := by
      rw [prepareEntry_refused_iff hcheck (List.cons_ne_nil r []) rfl,
        matchEthtoolFdirEntry_iff hhash]
      refine ⟨r, List.mem_singleton_self r, rfl, _, rfl, ?_⟩
      rwa [AtrInput.xor_cancel]
    obtain ⟨r', hr', hsame, -⟩ := h s (List.cons_ne_nil r []) rfl hhash hrefused
    rw [List.mem_singleton.mp hr'] at hsame
    have hdiff := AtrInput.sameMatch_iff_xor.mp
      (show ((filter.xor d).and mask).SameMatch (filter.and mask) from hsame)
    rwa [← AtrInput.and_xor, AtrInput.xor_cancel] at hdiff
  · rw [prepareEntry_refused_iff hcheck hne hmask, matchEthtoolFdirEntry_iff hhash] at hrefused
    obtain ⟨r, hr, haction, f, hf, hbucket⟩ := hrefused
    refine ⟨r, hr, ?_, haction⟩
    have hzero := hinj _ hbucket
    rw [AtrInput.and_xor, ← AtrInput.sameMatch_iff_xor] at hzero
    rw [hf]
    exact hzero

end Add

def tcpPair (a b : U8) (location : U32) : FlowSpec where
  flowType := .tcpV4
  ext := false
  hU i := if i = 0 then (0x00000a : BitVec 24).setWidth 32 ||| (a.setWidth 32 <<< 24)
    else if i = 1 then (0x00000a : BitVec 24).setWidth 32 ||| (b.setWidth 32 <<< 24) else 0
  mU i := if i < 2 then 0xffffffff else 0
  hExt := ⟨0, 0, 0⟩
  mExt := ⟨0, 0, 0⟩
  ringCookie := 0
  location := location

def onePair : FdirState :=
  (addEthtoolFdirEntry (fdirConfig false) allFine noRules (tcpPair 1 2 5)).1

def FlowSpec.parsed (fsp : FlowSpec) : AtrInput × AtrInput := fsp.parse.getD (.zero, .zero)

theorem duplicate_not_exact_pair :
    ¬ ∀ s : FdirState, s.filterList ≠ [] → s.mask = (tcpPair 1 2 6).parsed.2 →
      (∀ r ∈ s.filterList, r.Hashed (tcpPair 1 2 6).parsed.2) →
      (prepareEntry (fdirConfig false) true s (tcpPair 1 2 6)).2 = .error eInval →
      s.Lists ((tcpPair 1 2 6).parsed.1.and (tcpPair 1 2 6).parsed.2) 0 := by
  have hcheck : checkFlowSpec (fdirConfig false) true (tcpPair 1 2 6) =
      .ok (0, (tcpPair 1 2 6).parsed.1, (tcpPair 1 2 6).parsed.2) := by decide +kernel
  obtain ⟨hiff, hcommon⟩ := duplicate_exact_iff (fdirConfig false) true (tcpPair 1 2 6) 0 _ _ hcheck
  exact fun h => hcommon ⟨0, by decide, by decide +kernel⟩ (hiff.mp h)

/-- **The reverse direction is refused as existing.** -/
theorem reverse_direction_refused :
    (addEthtoolFdirEntry (fdirConfig false) allFine noRules (tcpPair 1 2 5)).2 = success ∧
      onePair.filterList.length = 1 ∧ onePair.mask = (tcpPair 2 1 6).parsed.2 ∧
      matchEthtoolFdirEntry onePair
        ((tcpPair 2 1 6).rule (tcpPair 2 1 6).parsed.1 (tcpPair 2 1 6).parsed.2) = true ∧
      (addEthtoolFdirEntry (fdirConfig false) allFine onePair (tcpPair 2 1 6)).2 = eInval ∧
      ¬ onePair.Lists ((tcpPair 2 1 6).parsed.1.and (tcpPair 2 1 6).parsed.2) 0 := by
  refine ⟨?_, ?_, ?_, ?_, ?_, ?_⟩ <;> decide +kernel

end Ixgbe
