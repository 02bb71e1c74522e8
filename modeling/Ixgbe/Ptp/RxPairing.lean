import Ixgbe.Ptp.RxTimestamp

/-! # Every frame accounted for, every timestamp given once

What should hold after any sequence of arrivals, interrupts, polls and time, and when it does. -/

namespace Ixgbe

open EventRun Function List PtpRx Nat

variable {n : ℕ}

/-- Every frame was passed up at most once, is on one list or freed; every timestamp went to at most
one frame with its sequence id. -/
structure PairingSound (s : PtpRx n) : Prop where
  once : ∀ f < s.frames, s.delivered.count f ≤ 1
  placed : ∀ f < s.frames, f ∉ s.delivered →
    (∃! q, f ∈ (s.ptpSkbs q).map HeldSkb.skb) ∨ f ∈ s.freed
  attachedOnce : (s.attached.map Attachment.tstamp).Nodup
  fits : ∀ a ∈ s.attached, a.tstampSeq = a.skbSeq ∧ a.before = 0

def firstHeld (s : PtpRx n) (seq : BitVec 16) : Option HeldSkb :=
  ((List.finRange n).flatMap s.ptpSkbs).find? fun x => x.seqId == seq

/-- **The condition on a step.** -/
def PairsWell (lim : ℕ) (s : PtpRx n) : PtpRxEvent n → Prop
  | .frame _ f => f.zc = true ∨ f.alloc = true ∨
      ∀ seq, f.hdr = some seq →
        ∃ t ∈ s.rxTstamps, t.seqId = seq ∧ expired lim s.jiffies t.acquired = false
  | .fwTstamp seq _ _ => ∀ x, firstHeld s seq = some x → x.hwtstamp = 0
  | .poll q budget => ∀ x ∈ (readySkbs lim s.jiffies (s.ptpSkbs q)).take (max 1 budget.toNat),
      x.zc = false
  | .tick _ => True

def PtpRx.known (s : PtpRx n) : List ℕ :=
  s.attached.map Attachment.tstamp ++ s.rxTstamps.map RxTstamp.tstamp

/-- No timestamp is known twice, and the attached ones fit their frames. -/
structure TstampInv (s : PtpRx n) : Prop where
  nodup : s.known.Nodup
  lt : ∀ t ∈ s.known, t < s.tstamps
  fits : ∀ a ∈ s.attached, a.tstampSeq = a.skbSeq ∧ a.before = 0

theorem ptpRxFindSkb_eq (s : PtpRx n) (seq : BitVec 16) (ns : ℕ) (qs : List (Fin n)) :
    (ptpRxFindSkb s seq ns qs).map Prod.fst =
      (qs.flatMap s.ptpSkbs).find? fun x => x.seqId == seq := by
  induction qs with
  | nil => rfl
  | cons q qs ih =>
    rw [flatMap_cons, List.find?_append, ← stampSkb_eq seq ns (s.ptpSkbs q), ← ih, ptpRxFindSkb]
    cases stampSkb seq ns (s.ptpSkbs q) with
    | none => rfl
    | some r => rfl

theorem ptpRxFindSkb_some {s s1 : PtpRx n} {seq : BitVec 16} {ns : ℕ} {x : HeldSkb}
    (h : ptpRxFindSkb s seq ns (List.finRange n) = some (x, s1)) :
    firstHeld s seq = some x ∧ x.seqId = seq := by
  have hfirst : firstHeld s seq = some x := by
    rw [firstHeld, ← ptpRxFindSkb_eq s seq ns, h]
    rfl
  exact ⟨hfirst, by simpa using List.find?_some hfirst⟩

section

variable {lim : ℕ} {s s' : PtpRx n}

theorem TstampInv.of_subperm (h : TstampInv s) (hk : s'.known.Subperm s.known)
    (ht : s'.tstamps = s.tstamps)
    (hfits : ∀ a ∈ s'.attached, a.tstampSeq = a.skbSeq ∧ a.before = 0) : TstampInv s' := by
  obtain ⟨l, hperm, hsub⟩ := hk
  refine ⟨hperm.nodup_iff.mp (h.nodup.sublist hsub), fun t hmem => ?_, hfits⟩
  rw [ht]
  exact h.lt t (hsub.subset (hperm.mem_iff.mpr hmem))

theorem TstampInv.of_perm_cons (h : TstampInv s) (hk : s'.known.Perm (s.tstamps :: s.known))
    (ht : s'.tstamps = s.tstamps + 1)
    (hfits : ∀ a ∈ s'.attached, a.tstampSeq = a.skbSeq ∧ a.before = 0) : TstampInv s' := by
  refine ⟨hk.nodup_iff.mpr (nodup_cons.mpr ⟨fun hmem => ?_, h.nodup⟩), fun t hmem => ?_, hfits⟩
  · exact lt_irrefl _ (h.lt _ hmem)
  · rw [ht]
    rcases mem_cons.mp (hk.mem_iff.mp hmem) with rfl | hold
    · exact lt_succ_self _
    · exact lt_succ_of_lt (h.lt t hold)

theorem ptpRxPhytstamp_tstampInv (lim : ℕ) (h : TstampInv s) (q : Fin n) (f : PhyFrame) :
    TstampInv (ptpRxPhytstamp lim s q f) := by
  unfold ptpRxPhytstamp
  cases f.hdr with
  | none => exact { h with }
  | some seq =>
    have hsub := takeTstamp_subperm lim s.jiffies seq s.rxTstamps
    have hfst := takeTstamp_fst lim s.jiffies seq s.rxTstamps
    dsimp only
    generalize takeTstamp lim s.jiffies seq s.rxTstamps = r at hsub hfst
    obtain ⟨o, ts⟩ := r
    obtain ⟨l, hperm, hsubl⟩ := hsub
    have hmap : ((o.toList ++ ts).map RxTstamp.tstamp).Subperm (s.rxTstamps.map RxTstamp.tstamp) :=
      ⟨l.map RxTstamp.tstamp, hperm.map _, hsubl.map _⟩
    cases o with
    | none =>
      split_ifs
      · exact h.of_subperm ((subperm_append_left _).mpr hmap) rfl h.fits
      · exact h.of_subperm ((subperm_append_left _).mpr hmap) rfl h.fits
    | some t =>
      refine h.of_subperm ?_ rfl ?_
      · exact (perm_middle.symm.subperm).trans ((subperm_append_left _).mpr hmap)
      · intro a ha
        rcases mem_cons.mp ha with rfl | hold
        · have hmatch := List.find?_some hfst.symm
          exact ⟨by simpa using (Bool.and_eq_true_iff.mp hmatch).2, rfl⟩
        · exact h.fits a hold

theorem rxPhyFrame_tstampInv (lim : ℕ) (h : TstampInv s) (q : Fin n) (f : PhyFrame) :
    TstampInv (rxPhyFrame lim s q f) := by
  have h1 := ptpRxPhytstamp_tstampInv lim h q f
  unfold rxPhyFrame deliverPhyFrame
  split_ifs
  · exact { h1 with }
  · exact { h1 with }

theorem ptpRxFindSkb_frame {seq : BitVec 16} {ns : ℕ} {x : HeldSkb} {qs : List (Fin n)}
    (h : ptpRxFindSkb s seq ns qs = some (x, s')) :
    ∃ q l, stampSkb seq ns (s.ptpSkbs q) = some (x, l) ∧
      s' = { s with ptpSkbs := update s.ptpSkbs q l } := by
  induction qs with
  | nil => simp [ptpRxFindSkb] at h
  | cons q qs ih =>
    rw [ptpRxFindSkb] at h
    cases hr : stampSkb seq ns (s.ptpSkbs q) with
    | none =>
      rw [hr] at h
      exact ih h
    | some r =>
      rw [hr] at h
      cases Option.some.inj h
      exact ⟨q, _, hr, rfl⟩

theorem ptpRxCompleteTstamp_tstampInv (h : TstampInv s) {seq : BitVec 16} {ns : ℕ} {alloc : Bool}
    (hok : ∀ x, firstHeld s seq = some x → x.hwtstamp = 0) :
    TstampInv (ptpRxCompleteTstamp s seq ns alloc) := by
  unfold ptpRxCompleteTstamp
  cases hfind : ptpRxFindSkb s seq ns (List.finRange n) with
  | none =>
    by_cases halloc : alloc = true
    · refine h.of_perm_cons ?_ rfl h.fits
      rw [if_pos halloc, known, map_append, ← append_assoc]
      exact perm_append_singleton _ _
    · rw [if_neg halloc]
      exact ⟨h.nodup, fun t ht => lt_succ_of_lt (h.lt t ht), h.fits⟩
  | some r =>
    obtain ⟨x, s1⟩ := r
    obtain ⟨hfirst, hseq⟩ := ptpRxFindSkb_some hfind
    obtain ⟨q, l, -, rfl⟩ := ptpRxFindSkb_frame hfind
    refine h.of_perm_cons (List.Perm.refl _) rfl ?_
    intro a ha
    rcases mem_cons.mp ha with rfl | hold
    · exact ⟨hseq.symm, hok x hfirst⟩
    · exact h.fits a hold

def PtpRx.tags (s : PtpRx n) (q : Fin n) : List (ℕ × Bool) :=
  (s.ptpSkbs q).map fun x => (x.skb, x.zc)

theorem PtpRx.map_fst_tags (s : PtpRx n) (q : Fin n) :
    (s.tags q).map Prod.fst = (s.ptpSkbs q).map HeldSkb.skb := by
  rw [tags, map_map]
  rfl

/-- Listed ones are not passed up unless a zero-copy ring received them. -/
structure FrameInv (s : PtpRx n) : Prop where
  deliveredNodup : s.delivered.Nodup
  deliveredLt : ∀ f ∈ s.delivered, f < s.frames
  freedLt : ∀ f ∈ s.freed, f < s.frames
  heldLt : ∀ q, ∀ p ∈ s.tags q, p.1 < s.frames
  heldNodup : ∀ q, ((s.tags q).map Prod.fst).Nodup
  heldOnce : ∀ q q', ∀ p ∈ s.tags q, ∀ p' ∈ s.tags q', p.1 = p'.1 → q = q'
  zc : ∀ q, ∀ p ∈ s.tags q, p.2 = true ↔ p.1 ∈ s.delivered
  placed : ∀ f < s.frames,
    f ∈ s.delivered ∨ (∃ q, ∃ p ∈ s.tags q, p.1 = f) ∨ f ∈ s.freed

inductive FrameStep (s s' : PtpRx n) : Prop
  | kept (htags : s'.tags = s.tags) (hd : s'.delivered = s.delivered)
      (hf : s'.freed = s.freed) (hn : s'.frames = s.frames)
  /-- A new frame is passed up at once. -/
  | passed (htags : s'.tags = s.tags) (hd : s'.delivered = s.frames :: s.delivered)
      (hf : s'.freed = s.freed) (hn : s'.frames = s.frames + 1)
  /-- It is also passed up if a zero-copy ring received it. -/
  | held (q : Fin n) (zc : Bool)
      (htags : s'.tags = Function.update s.tags q (s.tags q ++ [(s.frames, zc)]))
      (hd : s'.delivered = if zc then s.frames :: s.delivered else s.delivered)
      (hf : s'.freed = s.freed) (hn : s'.frames = s.frames + 1)
  /-- Frames leave a list, passed up or freed. -/
  | completed (q : Fin n) (left done gone : List (ℕ × Bool))
      (hperm : (left ++ done ++ gone).Perm (s.tags q)) (hzc : ∀ p ∈ done, p.2 = false)
      (htags : s'.tags = Function.update s.tags q left)
      (hd : s'.delivered = done.map Prod.fst ++ s.delivered)
      (hf : s'.freed = gone.map Prod.fst ++ s.freed) (hn : s'.frames = s.frames)

theorem FrameInv.kept (h : FrameInv s) (htags : s'.tags = s.tags)
    (hd : s'.delivered = s.delivered) (hf : s'.freed = s.freed) (hn : s'.frames = s.frames) :
    FrameInv s' := by
  obtain ⟨hnodup, hdeliv, hfreed, hheld, htnodup, honce, hzc, hplaced⟩ := h
  rw [← hd] at hnodup hdeliv hzc hplaced
  rw [← hf] at hfreed hplaced
  rw [← htags] at hheld htnodup honce hzc hplaced
  rw [← hn] at hdeliv hfreed hheld hplaced
  exact ⟨hnodup, hdeliv, hfreed, hheld, htnodup, honce, hzc, hplaced⟩

theorem FrameInv.fresh (h : FrameInv s) :
    s.frames ∉ s.delivered ∧ ∀ q, ∀ p ∈ s.tags q, p.1 ≠ s.frames :=
  ⟨fun hmem => lt_irrefl _ (h.deliveredLt _ hmem), fun q p hp => (h.heldLt q p hp).ne⟩

theorem FrameInv.passed (h : FrameInv s) (htags : s'.tags = s.tags)
    (hd : s'.delivered = s.frames :: s.delivered) (hf : s'.freed = s.freed)
    (hn : s'.frames = s.frames + 1) : FrameInv s' := by
  obtain ⟨hnew, hnewHeld⟩ := h.fresh
  constructor
  case deliveredNodup =>
    rw [hd]
    exact nodup_cons.mpr ⟨hnew, h.deliveredNodup⟩
  case deliveredLt =>
    rw [hd, hn]
    rintro f (_ | ⟨_, hmem⟩)
    · exact lt_succ_self _
    · exact lt_succ_of_lt (h.deliveredLt f hmem)
  case freedLt =>
    rw [hf, hn]
    exact fun f hmem => lt_succ_of_lt (h.freedLt f hmem)
  case heldLt =>
    rw [htags, hn]
    exact fun q p hp => lt_succ_of_lt (h.heldLt q p hp)
  case heldNodup =>
    rw [htags]
    exact h.heldNodup
  case heldOnce =>
    rw [htags]
    exact h.heldOnce
  case zc =>
    rw [htags, hd]
    intro q p hp
    rw [mem_cons, h.zc q p hp, or_iff_right (hnewHeld q p hp)]
  case placed =>
    rw [htags, hd, hf, hn]
    intro f hlt
    rcases Nat.lt_succ_iff_lt_or_eq.mp hlt with hlt | rfl
    · exact (h.placed f hlt).imp_left (mem_cons_of_mem _)
    · exact .inl (mem_cons_self ..)

theorem FrameInv.held (h : FrameInv s) {q : Fin n} {zc : Bool}
    (htags : s'.tags = update s.tags q (s.tags q ++ [(s.frames, zc)]))
    (hd : s'.delivered = if zc then s.frames :: s.delivered else s.delivered)
    (hf : s'.freed = s.freed) (hn : s'.frames = s.frames + 1) : FrameInv s' := by
  obtain ⟨hnew, hnewHeld⟩ := h.fresh
  have hmem : ∀ q' p, p ∈ s'.tags q' ↔ p ∈ s.tags q' ∨ q' = q ∧ p = (s.frames, zc) := by
    intro q' p
    by_cases hq : q' = q
    · subst hq
      rw [htags, update_self]
      simp
    · rw [htags, update_of_ne hq]
      simp [hq]
  have hdel : ∀ f, f ∈ s'.delivered ↔ f ∈ s.delivered ∨ zc = true ∧ f = s.frames := by
    intro f
    rw [hd]
    cases zc with
    | false => simp
    | true => simp [or_comm]
  constructor
  case deliveredNodup =>
    rw [hd]
    split_ifs
    · exact nodup_cons.mpr ⟨hnew, h.deliveredNodup⟩
    · exact h.deliveredNodup
  case deliveredLt =>
    intro f hf'
    rw [hn]
    rcases (hdel f).mp hf' with hold | ⟨-, rfl⟩
    · exact lt_succ_of_lt (h.deliveredLt f hold)
    · exact lt_succ_self _
  case freedLt =>
    rw [hf, hn]
    exact fun f hmem => lt_succ_of_lt (h.freedLt f hmem)
  case heldLt =>
    intro q' p hp
    rw [hn]
    rcases (hmem q' p).mp hp with hold | ⟨-, rfl⟩
    · exact lt_succ_of_lt (h.heldLt q' p hold)
    · exact lt_succ_self _
  case heldNodup =>
    intro q'
    by_cases hq : q' = q
    · subst hq
      rw [htags, update_self, map_append, nodup_append]
      refine ⟨h.heldNodup q', nodup_singleton _, ?_⟩
      rintro f hf' g hg rfl
      obtain ⟨p, hp, rfl⟩ := mem_map.mp hf'
      exact hnewHeld q' p hp (mem_singleton.mp hg)
    · rw [htags, update_of_ne hq]
      exact h.heldNodup q'
  case heldOnce =>
    intro q1 q2 p1 hp1 p2 hp2 heq
    rcases (hmem q1 p1).mp hp1 with hold1 | ⟨rfl, rfl⟩
    · rcases (hmem q2 p2).mp hp2 with hold2 | ⟨rfl, rfl⟩
      · exact h.heldOnce q1 q2 p1 hold1 p2 hold2 heq
      · exact absurd heq (hnewHeld q1 p1 hold1)
    · rcases (hmem q2 p2).mp hp2 with hold2 | ⟨rfl, -⟩
      · exact absurd heq.symm (hnewHeld q2 p2 hold2)
      · rfl
  case zc =>
    intro q' p hp
    rw [hdel]
    rcases (hmem q' p).mp hp with hold | ⟨-, rfl⟩
    · rw [h.zc q' p hold, or_iff_left]
      exact fun hbad => hnewHeld q' p hold hbad.2
    · simp [hnew]
  case placed =>
    intro f hlt
    rw [hn] at hlt
    rcases Nat.lt_succ_iff_lt_or_eq.mp hlt with hlt | rfl
    · rcases h.placed f hlt with hd' | ⟨q', p, hp, hpf⟩ | hfr
      · exact .inl ((hdel f).mpr (.inl hd'))
      · exact .inr (.inl ⟨q', p, (hmem q' p).mpr (.inl hp), hpf⟩)
      · exact .inr (.inr (by rw [hf]; exact hfr))
    · exact .inr (.inl ⟨q, _, (hmem q _).mpr (.inr ⟨rfl, rfl⟩), rfl⟩)

theorem FrameInv.completed (h : FrameInv s) {q : Fin n} {left done gone : List (ℕ × Bool)}
    (hperm : (left ++ done ++ gone).Perm (s.tags q)) (hzc : ∀ p ∈ done, p.2 = false)
    (htags : s'.tags = update s.tags q left) (hd : s'.delivered = done.map Prod.fst ++ s.delivered)
    (hf : s'.freed = gone.map Prod.fst ++ s.freed) (hn : s'.frames = s.frames) : FrameInv s' := by
  have hparts : ∀ p, p ∈ s.tags q ↔ p ∈ left ∨ p ∈ done ∨ p ∈ gone := by
    intro p
    rw [← hperm.mem_iff, mem_append, mem_append, or_assoc]
  have hnodup : ((left ++ done ++ gone).map Prod.fst).Nodup :=
    (hperm.map Prod.fst).nodup_iff.mpr (h.heldNodup q)
  rw [map_append, map_append, nodup_append, nodup_append] at hnodup
  obtain ⟨⟨hleft, hdone, hapart⟩, -, -⟩ := hnodup
  have hmem : ∀ q', ∀ p ∈ s'.tags q', p ∈ s.tags q' := by
    intro q' p hp
    by_cases hq : q' = q
    · subst hq
      rw [htags, update_self] at hp
      exact (hparts p).mpr (.inl hp)
    · rwa [htags, update_of_ne hq] at hp
  constructor
  case deliveredNodup =>
    rw [hd, nodup_append]
    refine ⟨hdone, h.deliveredNodup, ?_⟩
    rintro f hf' g hg rfl
    obtain ⟨p, hp, rfl⟩ := mem_map.mp hf'
    have hzcp := (h.zc q p ((hparts p).mpr (.inr (.inl hp)))).mpr hg
    rw [hzc p hp] at hzcp
    exact absurd hzcp (by decide)
  case deliveredLt =>
    intro f hf'
    rw [hd, mem_append] at hf'
    rw [hn]
    rcases hf' with hnew | hold
    · obtain ⟨p, hp, rfl⟩ := mem_map.mp hnew
      exact h.heldLt q p ((hparts p).mpr (.inr (.inl hp)))
    · exact h.deliveredLt f hold
  case freedLt =>
    intro f hf'
    rw [hf, mem_append] at hf'
    rw [hn]
    rcases hf' with hnew | hold
    · obtain ⟨p, hp, rfl⟩ := mem_map.mp hnew
      exact h.heldLt q p ((hparts p).mpr (.inr (.inr hp)))
    · exact h.freedLt f hold
  case heldLt =>
    intro q' p hp
    rw [hn]
    exact h.heldLt q' p (hmem q' p hp)
  case heldNodup =>
    intro q'
    by_cases hq : q' = q
    · subst hq
      rw [htags, update_self]
      exact hleft
    · rw [htags, update_of_ne hq]
      exact h.heldNodup q'
  case heldOnce =>
    intro q1 q2 p1 hp1 p2 hp2 heq
    exact h.heldOnce q1 q2 p1 (hmem q1 p1 hp1) p2 (hmem q2 p2 hp2) heq
  case zc =>
    intro q' p hp
    rw [hd, mem_append, h.zc q' p (hmem q' p hp), or_iff_right]
    -- a frame that stays is not one of those passed up
    intro hbad
    obtain ⟨p', hp', heq⟩ := mem_map.mp hbad
    obtain rfl := h.heldOnce q' q p (hmem q' p hp) p' ((hparts p').mpr (.inr (.inl hp'))) heq.symm
    rw [htags, update_self] at hp
    exact hapart p.1 (mem_map_of_mem hp) p'.1 (mem_map_of_mem hp') heq.symm
  case placed =>
    intro f hlt
    rw [hn] at hlt
    rw [hd, hf, mem_append, mem_append]
    rcases h.placed f hlt with hd' | ⟨q', p, hp, rfl⟩ | hfr
    · exact .inl (.inr hd')
    · by_cases hq : q' = q
      · subst hq
        rcases (hparts p).mp hp with hl | hl | hl
        · exact .inr (.inl ⟨q', p, by rwa [htags, update_self], rfl⟩)
        · exact .inl (.inl (mem_map_of_mem hl))
        · exact .inr (.inr (.inl (mem_map_of_mem hl)))
      · exact .inr (.inl ⟨q', p, by rwa [htags, update_of_ne hq], rfl⟩)
    · exact .inr (.inr (.inr hfr))

theorem FrameStep.inv (h : FrameStep s s') (hs : FrameInv s) : FrameInv s' := by
  cases h with
  | kept htags hd hf hn => exact hs.kept htags hd hf hn
  | passed htags hd hf hn => exact hs.passed htags hd hf hn
  | held q zc htags hd hf hn => exact hs.held htags hd hf hn
  | completed q left done gone hperm hzc htags hd hf hn =>
    exact hs.completed hperm hzc htags hd hf hn

theorem PtpRx.tags_update {q : Fin n} {l : List HeldSkb} (h : s'.ptpSkbs = update s.ptpSkbs q l) :
    s'.tags = update s.tags q (l.map fun x => (x.skb, x.zc)) := by
  funext q'
  by_cases hq : q' = q
  · subst hq
    rw [update_self, tags, h, update_self]
  · rw [update_of_ne hq, tags, h, update_of_ne hq]
    rfl

theorem PtpRx.tags_congr (h : s'.ptpSkbs = s.ptpSkbs) : s'.tags = s.tags := by
  funext q
  rw [tags, h]
  rfl

def NoTstamp (lim : ℕ) (s : PtpRx n) (f : PhyFrame) : Prop :=
  ∃ seq, f.hdr = some seq ∧ (takeTstamp lim s.jiffies seq s.rxTstamps).1 = none

section

variable {q : Fin n} {f : PhyFrame}

theorem ptpRxPhytstamp_passed (h : ¬ NoTstamp lim s f) :
    let s1 := ptpRxPhytstamp lim s q f
    s1.ptpHoldRxSkb q = false ∧ s1.ptpSkbs = s.ptpSkbs ∧ s1.delivered = s.delivered ∧
      s1.freed = s.freed ∧ s1.frames = s.frames := by
  unfold ptpRxPhytstamp
  cases hhdr : f.hdr with
  | none => exact ⟨update_self .., rfl, rfl, rfl, rfl⟩
  | some seq =>
    have hsome : (takeTstamp lim s.jiffies seq s.rxTstamps).1 ≠ none := fun hn => h ⟨seq, hhdr, hn⟩
    dsimp only
    generalize takeTstamp lim s.jiffies seq s.rxTstamps = r at hsome
    obtain ⟨_ | t, ts⟩ := r
    · exact absurd rfl hsome
    · exact ⟨update_self .., rfl, rfl, rfl, rfl⟩

theorem ptpRxPhytstamp_held (h : NoTstamp lim s f) :
    let s1 := ptpRxPhytstamp lim s q f
    s1.ptpHoldRxSkb q = true ∧
      (s1.tags = if f.alloc then update s.tags q (s.tags q ++ [(s.frames, f.zc)])
        else s.tags) ∧
      s1.delivered = s.delivered ∧ s1.freed = s.freed ∧ s1.frames = s.frames := by
  obtain ⟨seq, hhdr, hnone⟩ := h
  unfold ptpRxPhytstamp
  rw [hhdr]
  dsimp only
  generalize takeTstamp lim s.jiffies seq s.rxTstamps = r at hnone
  obtain ⟨_ | t, ts⟩ := r
  · dsimp only
    by_cases halloc : f.alloc = true
    · rw [if_pos halloc, if_pos halloc]
      refine ⟨update_self .., ?_, rfl, rfl, rfl⟩
      rw [tags_update (s := s) (q := q) rfl, map_append]
      rfl
    · rw [if_neg halloc, if_neg halloc]
      exact ⟨update_self .., rfl, rfl, rfl, rfl⟩
  · exact absurd hnone (by simp)

theorem pairsWell_frame_iff :
    PairsWell lim s (.frame q f) ↔ f.zc = true ∨ f.alloc = true ∨ ¬ NoTstamp lim s f := by
  have hiff : (¬ NoTstamp lim s f) ↔ ∀ seq, f.hdr = some seq →
      ∃ t ∈ s.rxTstamps, t.seqId = seq ∧ expired lim s.jiffies t.acquired = false := by
    rw [NoTstamp]
    push Not
    simp only [takeTstamp_ne_none_iff]
  rw [PairsWell, hiff]

theorem rxPhyFrame_frameStep (h : PairsWell lim s (.frame q f)) :
    FrameStep s (rxPhyFrame lim s q f) := by
  rw [pairsWell_frame_iff] at h
  unfold rxPhyFrame deliverPhyFrame
  by_cases hno : NoTstamp lim s f
  · obtain ⟨hhold, htags, hd, hf, hn⟩ := ptpRxPhytstamp_held (q := q) hno
    by_cases halloc : f.alloc = true
    · rw [if_pos halloc] at htags
      refine .held q f.zc ?_ ?_ ?_ rfl
      · rw [← htags]
        split_ifs <;> exact tags_congr rfl
      · rw [hhold]
        by_cases hzc : f.zc = true
        · simp [hzc, hd, hn]
        · simp [hzc, hd]
      · rw [← hf]
        split_ifs <;> rfl
    · rw [if_neg halloc] at htags
      have hzc : f.zc = true := by simpa [halloc, hno] using h
      rw [hzc, Bool.true_or, if_pos rfl]
      exact .passed (by rw [← htags]; exact tags_congr rfl) (by rw [hd, hn]) hf rfl
  · obtain ⟨hhold, hskbs, hd, hf, hn⟩ := ptpRxPhytstamp_passed (q := q) hno
    rw [hhold, Bool.not_false, Bool.or_true, if_pos rfl]
    exact .passed (tags_congr hskbs) (by rw [hd, hn]) hf rfl

theorem rxPhyFrame_lost (h : ¬ PairsWell lim s (.frame q f)) :
    let s' := rxPhyFrame lim s q f
    s'.tags = s.tags ∧ s'.delivered = s.delivered ∧ s'.freed = s.freed ∧
      s'.frames = s.frames + 1 := by
  rw [pairsWell_frame_iff] at h
  push Not at h
  obtain ⟨hzc, halloc, hno⟩ := h
  obtain ⟨hhold, htags, hd, hf, hn⟩ := ptpRxPhytstamp_held (q := q) hno
  unfold rxPhyFrame deliverPhyFrame
  rw [if_neg halloc] at htags
  rw [hhold, if_neg (by simp [hzc])]
  exact ⟨htags ▸ tags_congr rfl, hd, hf, rfl⟩

end

theorem ptpRxCompleteTstamp_frameStep (s : PtpRx n) (seq : BitVec 16) (ns : ℕ) (alloc : Bool) :
    FrameStep s (ptpRxCompleteTstamp s seq ns alloc) := by
  unfold ptpRxCompleteTstamp
  cases hfind : ptpRxFindSkb s seq ns (List.finRange n) with
  | none => exact .kept rfl rfl rfl rfl
  | some r =>
    obtain ⟨x, s1⟩ := r
    obtain ⟨q, l, hr, rfl⟩ := ptpRxFindSkb_frame hfind
    refine .kept ?_ rfl rfl rfl
    rw [tags_update (s := s) (q := q) rfl, stampSkb_tags hr]
    exact update_eq_self q s.tags

theorem pollHeld_frameStep {q : Fin n} {budget : ℤ} (h : PairsWell lim s (.poll q budget)) :
    FrameStep s (pollHeld lim s q budget) := by
  have hperm := ptpRxCompleteSkb_perm lim s.jiffies budget (s.ptpSkbs q)
  have hdel := ptpRxCompleteSkb_delivered lim s.jiffies budget (s.ptpSkbs q)
  rw [PairsWell, ← hdel] at h
  unfold pollHeld
  generalize ptpRxCompleteSkb lim s.jiffies budget (s.ptpSkbs q) = r at hperm h
  refine .completed q (r.left.map fun x => (x.skb, x.zc)) (r.delivered.map fun x => (x.skb, x.zc))
    (r.freed.map fun x => (x.skb, x.zc)) ?_ ?_ ?_ ?_ ?_ rfl
  · rw [← map_append, ← map_append]
    exact hperm.map _
  · intro p hp
    obtain ⟨x, hx, rfl⟩ := mem_map.mp hp
    exact h x hx
  · exact tags_update rfl
  · rw [map_map]
    rfl
  · rw [map_map]
    rfl

structure PairingInv (s : PtpRx n) : Prop where
  frames : FrameInv s
  tstamps : TstampInv s

theorem PairingInv.sound (h : PairingInv s) : PairingSound s := by
  refine ⟨fun f _ => nodup_iff_count_le_one.mp h.frames.deliveredNodup f, fun f hlt hnd => ?_,
    (nodup_append.mp h.tstamps.nodup).1, h.tstamps.fits⟩
  rcases h.frames.placed f hlt with hd | ⟨q, p, hp, rfl⟩ | hf
  · exact absurd hd hnd
  · refine .inl ⟨q, ?_, fun q' hq' => ?_⟩
    · dsimp only
      rw [← map_fst_tags]
      exact mem_map_of_mem hp
    · dsimp only at hq'
      rw [← map_fst_tags] at hq'
      obtain ⟨p', hp', heq⟩ := mem_map.mp hq'
      exact h.frames.heldOnce q' q p' hp' p hp heq
  · exact .inr hf

theorem ptpRxStep_inv {e : PtpRxEvent n} (h : PairingInv s) (hok : PairsWell lim s e) :
    PairingInv (ptpRxStep lim s e) := by
  obtain ⟨hf, ht⟩ := h
  cases e with
  | frame q f => exact ⟨(rxPhyFrame_frameStep hok).inv hf, rxPhyFrame_tstampInv lim ht q f⟩
  | fwTstamp seq ns alloc =>
    exact ⟨(ptpRxCompleteTstamp_frameStep s seq ns alloc).inv hf,
      ptpRxCompleteTstamp_tstampInv ht hok⟩
  | poll q budget => exact ⟨(pollHeld_frameStep hok).inv hf, ht.nodup, ht.lt, ht.fits⟩
  | tick d => exact ⟨hf.kept rfl rfl rfl rfl, ht.nodup, ht.lt, ht.fits⟩

theorem not_sound_of_lost {q : Fin n} {f : PhyFrame} (h : FrameInv s)
    (hbad : ¬ PairsWell lim s (.frame q f)) : ¬ PairingSound (ptpRxStep lim s (.frame q f)) := by
  intro hs
  obtain ⟨htags, hd, hf, hn⟩ := rxPhyFrame_lost hbad
  obtain ⟨hnew, hnewHeld⟩ := h.fresh
  have hlt : s.frames < (ptpRxStep lim s (.frame q f)).frames := hn ▸ lt_succ_self _
  rcases hs.placed s.frames hlt (hd ▸ hnew) with ⟨q', hq', -⟩ | hfreed
  · rw [← map_fst_tags] at hq'
    change s.frames ∈ ((rxPhyFrame lim s q f).tags q').map Prod.fst at hq'
    rw [htags] at hq'
    obtain ⟨p, hp, heq⟩ := mem_map.mp hq'
    exact hnewHeld q' p hp heq
  · change s.frames ∈ (rxPhyFrame lim s q f).freed at hfreed
    rw [hf] at hfreed
    exact lt_irrefl _ (h.freedLt _ hfreed)

theorem not_sound_of_stamped {seq : BitVec 16} {ns : ℕ} {alloc : Bool}
    (hbad : ¬ PairsWell lim s (.fwTstamp seq ns alloc)) :
    ¬ PairingSound (ptpRxStep lim s (.fwTstamp seq ns alloc)) := by
  intro hs
  rw [PairsWell] at hbad
  push Not at hbad
  obtain ⟨x, hx, hts⟩ := hbad
  rw [firstHeld, ← ptpRxFindSkb_eq s seq ns] at hx
  obtain ⟨⟨y, s1⟩, hfind, rfl⟩ := Option.map_eq_some_iff.mp hx
  have hfits := hs.fits
  rw [ptpRxStep, ptpRxCompleteTstamp, hfind] at hfits
  exact hts (hfits _ (mem_cons_self ..)).2

theorem not_sound_of_zc {q : Fin n} {budget : ℤ} (h : FrameInv s)
    (hbad : ¬ PairsWell lim s (.poll q budget)) :
    ¬ PairingSound (ptpRxStep lim s (.poll q budget)) := by
  intro hs
  rw [PairsWell, ← ptpRxCompleteSkb_delivered] at hbad
  push Not at hbad
  obtain ⟨x, hx, hzc⟩ := hbad
  have hmem : x ∈ s.ptpSkbs q := by
    refine (ptpRxCompleteSkb_perm lim s.jiffies budget (s.ptpSkbs q)).subset ?_
    exact mem_append_left _ (mem_append_right _ hx)
  have htag : (x.skb, x.zc) ∈ s.tags q := mem_map_of_mem hmem
  have hdel : x.skb ∈ s.delivered := (h.zc q _ htag).mp (by simpa using hzc)
  have hcount := hs.once x.skb (h.heldLt q _ htag)
  have hnew : x.skb ∈ (ptpRxCompleteSkb lim s.jiffies budget (s.ptpSkbs q)).delivered.map
      HeldSkb.skb := mem_map_of_mem hx
  change List.count x.skb (_ ++ s.delivered) ≤ 1 at hcount
  rw [count_append] at hcount
  have h1 := count_pos_iff.mpr hnew
  have h2 := count_pos_iff.mpr hdel
  omega

end

/-- **Pairing is sound exactly along the runs whose steps all pair well**: every frame is passed up
at most once or accounted for, every timestamp goes to one fitting frame. -/
theorem pairingSound_iff (n lim : ℕ) (es : List (PtpRxEvent n)) :
    After (ptpRxStep lim) PairingSound ({} : PtpRx n) es ↔
      Along (ptpRxStep lim) (PairsWell lim) ({} : PtpRx n) es := by
  have hstart : PairingInv ({} : PtpRx n) := by
    refine ⟨⟨nodup_nil, ?_, ?_, ?_, fun _ => nodup_nil, ?_, ?_, ?_⟩,
      nodup_nil, ?_, ?_⟩
    · exact fun _ h => absurd h not_mem_nil
    · exact fun _ h => absurd h not_mem_nil
    · exact fun _ _ h => absurd h not_mem_nil
    · exact fun _ _ _ h => absurd h not_mem_nil
    · exact fun _ _ h => absurd h not_mem_nil
    · exact fun _ h => absurd h (not_lt_zero _)
    · exact fun _ h => absurd h not_mem_nil
    · exact fun _ h => absurd h not_mem_nil
  refine after_iff_along (fun _ _ => True) (fun s e h _ hok => ptpRxStep_inv h hok)
    (fun _ h => h.sound) (fun s e h _ hbad => ?_) hstart (along_of_forall _ es fun _ _ => trivial)
  cases e with
  | frame q f => exact not_sound_of_lost h.frames hbad
  | fwTstamp seq ns alloc => exact not_sound_of_stamped hbad
  | poll q budget => exact not_sound_of_zc h.frames hbad
  | tick d => exact absurd trivial hbad

/-- A held frame without a list entry; a repeated sequence id; a frame from a zero-copy ring. -/
theorem pairing_broken :
    ¬ After (ptpRxStep 125) PairingSound ({} : PtpRx 1) [.frame 0 ⟨some 7, false, false⟩] ∧
    ¬ After (ptpRxStep 125) PairingSound ({} : PtpRx 1)
        [.frame 0 ⟨some 7, true, false⟩, .fwTstamp 7 1000 true, .fwTstamp 7 2000 true] ∧
    ¬ After (ptpRxStep 125) PairingSound ({} : PtpRx 1)
        [.frame 0 ⟨some 7, true, true⟩, .fwTstamp 7 1000 true, .poll 0 64] := by
  refine ⟨?_, ?_, ?_⟩
  · rintro ⟨h, -⟩
    rcases h.placed 0 (by decide) (by decide) with ⟨q, hq, -⟩ | hf
    · revert q
      decide
    · exact absurd hf (by decide)
  · rintro ⟨-, -, h, -⟩
    exact absurd h.fits (by decide)
  · rintro ⟨-, -, h, -⟩
    exact absurd (h.once 0 (by decide)) (by decide)

end Ixgbe
