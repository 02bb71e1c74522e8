import Ixgbe.Fdir.SortedMap

/-! # Rules aimed at a VF

The driver numbers a VF's queues by the rings in use, `num_rx_queues_per_pool`, while the pools lie
as far apart as the mask says. -/

namespace Ixgbe

open List Function

/-- Configured by `ixgbe_set_vmdq_queues` or `ixgbe_set_dcb_vmdq_queues`. -/
def QueueAdapter.VmdqConfigured (a : QueueAdapter) : Prop :=
  ∃ b, setVmdqQueues b = some a ∨ b.numTc ≤ 8 ∧ setDcbVmdqQueues b = some a

def QueueAdapter.InVf (a : QueueAdapter) (vf : ℕ) (queue : U8) : Prop :=
  vf * a.vmdq.poolSize ≤ queue.toNat ∧ queue.toNat < (vf + 1) * a.vmdq.poolSize

/-- The queues before that the driver does not count are no more than `ring`. -/
def QueueAdapter.Reaches (a : QueueAdapter) (stride vf ring : ℕ) : Prop :=
  vf * (a.vmdq.poolSize - stride) ≤ ring ∧ vf * stride + ring < 256

variable {a : QueueAdapter}

theorem QueueAdapter.VmdqConfigured.poolSize (ha : a.VmdqConfigured) :
    2 ≤ a.vmdq.poolSize ∧ a.vmdq.poolSize ≤ 8 ∧ a.numRxQueuesPerPool ≤ a.vmdq.poolSize := by
  -- the mask is that of a pool mode, whose rings are counted
  obtain ⟨m, hmask, hper⟩ : ∃ m : PoolMode, a.vmdq.mask = m.mask ∧
      a.numRxQueuesPerPool ≤ m.queues := by
    obtain ⟨b, hb | ⟨htc, hb⟩⟩ := ha
    · have hon : b.vmdqEnabled = true := by
        by_contra hoff
        rw [setVmdqQueues, if_pos (by simpa using hoff)] at hb
        cases hb
      rw [setVmdqQueues_eq hon] at hb
      cases hb
      exact ⟨_, rfl, rssQueues_le_queues _ _⟩
    · have hmany : 1 < b.numTc := by
        by_contra hfew
        rw [setDcbVmdqQueues, if_pos (Nat.not_lt.mp hfew)] at hb
        cases hb
      have hon : b.vmdqEnabled = true := by
        by_contra hoff
        rw [setDcbVmdqQueues, if_neg (Nat.not_le.mpr hmany), if_pos (by simpa using hoff)] at hb
        cases hb
      rw [setDcbVmdqQueues_eq hmany hon] at hb
      cases hb
      exact ⟨_, rfl, le_queues_dcbMode htc⟩
  rw [poolSize_mode hmask]
  refine ⟨?_, ?_, hper⟩
  · cases m <;> decide
  · cases m <;> decide

theorem QueueAdapter.VmdqConfigured.inVf_iff (ha : a.VmdqConfigured) {stride vf ring : ℕ}
    (hstride : stride ≤ a.vmdq.poolSize) (hring : ring < a.vmdq.poolSize) :
    a.InVf vf (BitVec.ofNat 8 (vf * stride + ring)) ↔ a.Reaches stride vf ring := by
  obtain ⟨-, hle, -⟩ := ha.poolSize
  rw [InVf, Reaches, BitVec.toNat_ofNat, Nat.add_mul, Nat.one_mul, Nat.mul_sub]
  have hmul : vf * stride ≤ vf * a.vmdq.poolSize := Nat.mul_le_mul_left vf hstride
  -- beyond 256 the number wraps to one below the pool
  omega

theorem ringQueue_vf {cookie : U64} {queue : U8} (hvf : getFlowSpecRingVf cookie ≠ 0)
    (h : ringQueue a cookie = some queue) :
    (getFlowSpecRing cookie).toNat < a.numRxQueuesPerPool ∧
      queue = BitVec.ofNat 8 (((getFlowSpecRingVf cookie).toNat - 1) * a.numRxQueuesPerPool +
        (getFlowSpecRing cookie).toNat) := by
  have hne : ¬ (getFlowSpecRingVf cookie).toNat = 0 := fun h0 => hvf (BitVec.eq_of_toNat_eq h0)
  rw [ringQueue, if_neg hne] at h
  split at h
  · cases h
  · rename_i hok
    exact ⟨Nat.not_le.mp fun hge => hok (.inr hge), (Option.some.inj h).symm⟩

theorem QueueAdapter.VmdqConfigured.ringQueue_iff (ha : a.VmdqConfigured) {cookie : U64}
    {queue : U8} (hvf : getFlowSpecRingVf cookie ≠ 0) (h : ringQueue a cookie = some queue) :
    a.InVf ((getFlowSpecRingVf cookie).toNat - 1) queue ↔
      a.Reaches a.numRxQueuesPerPool ((getFlowSpecRingVf cookie).toNat - 1)
        (getFlowSpecRing cookie).toNat := by
  obtain ⟨hring, rfl⟩ := ringQueue_vf hvf h
  exact ha.inVf_iff ha.poolSize.2.2 (hring.trans_le ha.poolSize.2.2)

theorem updateEthtoolFdirEntry_hw (running erase : Bool) (s : FdirState) (r : FdirFilter)
    (swIdx : U16) :
    (updateEthtoolFdirEntry running erase s (some r) swIdx).1.hw r.key = s.hw r.key := by
  rw [updateEthtoolFdirEntry]
  split
  · rfl
  · rw [relinkEntry_eq, FdirState.store_hw]
    generalize hstale : ((SortedTable.holder FdirFilter.location swIdx.toNat s.filterList).filter
      fun rule => running && (some r).all fun i => rule.filter.bktHash != i.filter.bktHash) = stale
    cases stale with
    | none => rfl
    -- an old entry is erased only under another key
    | some rule =>
      have hbkt := (Option.filter_eq_some_iff.mp hstale).2
      refine update_of_ne (fun heq => ?_) ..
      have hsame : r.filter.bktHash = rule.filter.bktHash := congrArg Prod.fst heq
      simp [hsame] at hbkt

theorem addEthtoolFdirEntry_hw {c : FdirConfig} {o : FdirOutcome} {s : FdirState} {fsp : FlowSpec}
    (hrun : c.running = true) (h : (addEthtoolFdirEntry c o s fsp).2 = success) :
    ∃ r queue, fsp.Asks r ∧ addQueue c.queues fsp.ringCookie = some queue ∧
      (addEthtoolFdirEntry c o s fsp).1.hw r.key = some (r.filter, queue) := by
  rw [addEthtoolFdirEntry] at h ⊢
  rcases prepareEntry_cases c o.alloc s fsp with
    ⟨m, err, heq, herr⟩ | ⟨queue, filter, mask, hcheck, heq, -⟩
  · rw [heq] at h
    exact absurd h herr
  · obtain ⟨hqueue, -, hparse⟩ := checkFlowSpec_ok hcheck
    rw [heq] at h ⊢
    dsimp only at h ⊢
    by_cases hfail : (c.running && !o.write) = true
    · rw [if_pos hfail] at h
      exact absurd h (show eInval ≠ success by decide)
    · rw [if_neg hfail, if_pos hrun]
      refine ⟨fsp.rule filter mask, queue, ⟨filter, mask, hparse, rfl⟩, hqueue, ?_⟩
      exact (updateEthtoolFdirEntry_hw ..).trans (update_self ..)

theorem restoreEntry_hw_of_ne {s : FdirState} {r : FdirFilter} {k : U16 × U16} (h : k ≠ r.key) :
    (restoreEntry a s r).hw k = s.hw k := by
  rw [restoreEntry]
  split
  · rfl
  · exact update_of_ne h ..

theorem foldl_restoreEntry_of_ne (l : List FdirFilter) (s : FdirState) {k : U16 × U16}
    (h : ∀ r ∈ l, k ≠ r.key) : (l.foldl (restoreEntry a) s).hw k = s.hw k := by
  induction l generalizing s with
  | nil => rfl
  | cons r l ih =>
    rw [foldl_cons, ih _ fun r' hr' => h r' (mem_cons_of_mem _ hr'),
      restoreEntry_hw_of_ne (h r mem_cons_self)]

theorem foldl_restoreEntry (l : List FdirFilter) (s : FdirState)
    (hl : SortedTable.Sorted FdirFilter.location l) {r : FdirFilter} (hr : r ∈ l) {queue : U8}
    (hqueue : restoreQueue a r.action = some queue) :
    (l.foldl (restoreEntry a) s).hw r.key = some (r.filter, queue) := by
  induction l generalizing s with
  | nil => exact absurd hr not_mem_nil
  | cons r' l ih =>
    obtain ⟨hlt, hl'⟩ := pairwise_cons.mp hl
    rw [foldl_cons]
    rcases mem_cons.mp hr with rfl | hr
    · -- no later rule has its location
      have hne : ∀ x ∈ l, r.key ≠ x.key := fun x hx heq =>
        (hlt x hx).ne (congrArg (fun k : U16 × U16 => k.2.toNat) heq)
      rw [foldl_restoreEntry_of_ne l _ hne, restoreEntry, hqueue]
      exact update_self ..
    · exact ih _ hl' hr

theorem handleRedirectAction_eq {vfIfindex : ℕ → ℕ} {ifindex : ℕ} {queue : U8} {action : U64}
    (h : handleRedirectAction a vfIfindex ifindex = some (queue, action)) :
    ∃ vf < a.numVfs, vfIfindex vf = ifindex ∧ action = BitVec.ofNat 64 (vf + 1) <<< 32 ∧
      queue = BitVec.ofNat 8 (vf * redirectStride a) := by
  obtain ⟨vf, hfind, heq⟩ := Option.map_eq_some_iff.mp h
  have hmem := List.mem_of_find?_eq_some hfind
  cases heq
  exact ⟨vf, mem_range.mp hmem, by simpa using List.find?_some hfind, rfl, rfl⟩

/-- **A rule aimed at a VF stays inside the VF exactly when its ring makes up for the queues that
the driver does not count**, added, restored or redirected. -/
theorem vf_queue_iff (a : QueueAdapter) (ha : a.VmdqConfigured) :
    (∀ (c : FdirConfig) (o : FdirOutcome) (s : FdirState) (fsp : FlowSpec), c.queues = a →
      c.running = true → fsp.ringCookie ≠ rxClsFlowDisc → getFlowSpecRingVf fsp.ringCookie ≠ 0 →
      (addEthtoolFdirEntry c o s fsp).2 = success →
      ∃ r queue, fsp.Asks r ∧
        (addEthtoolFdirEntry c o s fsp).1.hw r.key = some (r.filter, queue) ∧
        (a.InVf ((getFlowSpecRingVf fsp.ringCookie).toNat - 1) queue ↔
          a.Reaches a.numRxQueuesPerPool ((getFlowSpecRingVf fsp.ringCookie).toNat - 1)
            (getFlowSpecRing fsp.ringCookie).toNat)) ∧
    (∀ (s : FdirState), s.Kept → ∀ r ∈ s.filterList, getFlowSpecRingVf r.action ≠ 0 →
      (restoreQueue a r.action).isSome →
      ∃ queue, (fdirFilterRestore a s).hw r.key = some (r.filter, queue) ∧
        (a.InVf ((getFlowSpecRingVf r.action).toNat - 1) queue ↔
          a.Reaches a.numRxQueuesPerPool ((getFlowSpecRingVf r.action).toNat - 1)
            (getFlowSpecRing r.action).toNat)) ∧
    (∀ vfIfindex ifindex queue action,
      handleRedirectAction a vfIfindex ifindex = some (queue, action) →
      ∃ vf < a.numVfs, vfIfindex vf = ifindex ∧ action = BitVec.ofNat 64 (vf + 1) <<< 32 ∧
        (a.InVf vf queue ↔ a.Reaches (redirectStride a) vf 0)) := by
  obtain ⟨htwo, -, hper⟩ := ha.poolSize
  refine ⟨?_, ?_, ?_⟩
  · rintro c o s fsp rfl hrun hdisc hvf hret
    obtain ⟨r, queue, hasks, hqueue, hhw⟩ := addEthtoolFdirEntry_hw hrun hret
    rw [addQueue, if_neg hdisc] at hqueue
    exact ⟨r, queue, hasks, hhw, ha.ringQueue_iff hvf hqueue⟩
  · intro s hs r hr hvf hsome
    obtain ⟨queue, hqueue⟩ := Option.isSome_iff_exists.mp hsome
    refine ⟨queue, foldl_restoreEntry _ s hs.sorted hr hqueue, ha.ringQueue_iff hvf ?_⟩
    -- the drop action has no VF
    rw [restoreQueue, if_neg] at hqueue
    · exact hqueue
    · intro hdrop
      rw [hdrop] at hvf
      exact hvf (by decide)
  · intro vfIfindex ifindex queue action h
    obtain ⟨vf, hlt, hidx, haction, rfl⟩ := handleRedirectAction_eq h
    have hstride : redirectStride a ≤ a.vmdq.poolSize := by
      rw [redirectStride]
      split
      · exact htwo
      · exact hper
    have hring : 0 < a.vmdq.poolSize := by omega
    exact ⟨vf, hlt, hidx, haction, ha.inVf_iff hstride hring⟩

def vfAdapter (numVfs : ℕ) (rssLimit : U16) (numTc : ℕ) : QueueAdapter :=
  { probedAdapter with
    sriovEnabled := true
    vmdqEnabled := true
    vmdq := ⟨1, 0, 0, BitVec.ofNat 16 numVfs⟩
    rss.limit := rssLimit
    numTc := numTc
    numVfs := numVfs
    pciVfs := numVfs }

def tenVfs : QueueAdapter := (setDcbVmdqQueues (vfAdapter 10 4 8)).getD probedAdapter

def twoVfs : QueueAdapter := (setVmdqQueues (vfAdapter 2 1 0)).getD probedAdapter

theorem vf_queue_iff_ten_vfs :
    ∃ r queue, (tcpFlow 1 0x300000002 5).Asks r ∧
      (addEthtoolFdirEntry { fdirConfig true with queues := tenVfs } allFine noRules
        (tcpFlow 1 0x300000002 5)).1.hw r.key = some (r.filter, queue) ∧ tenVfs.InVf 2 queue := by
  obtain ⟨r, queue, hasks, hhw, hiff⟩ :=
    (vf_queue_iff tenVfs ⟨vfAdapter 10 4 8, .inr ⟨by decide, rfl⟩⟩).1
      { fdirConfig true with queues := tenVfs } allFine noRules (tcpFlow 1 0x300000002 5) rfl rfl
      (by decide) (by decide) (by decide +kernel)
  exact ⟨r, queue, hasks, hhw, hiff.mpr ⟨by decide, by decide⟩⟩

/-- Queue 1 belongs to the first VF. -/
theorem vf_queue_outside :
    setVmdqQueues (vfAdapter 2 1 0) = some twoVfs ∧
      (addEthtoolFdirEntry { fdirConfig true with queues := twoVfs } allFine noRules
        (tcpFlow 1 0x200000000 5)).2 = success ∧
      ∃ r queue, (tcpFlow 1 0x200000000 5).Asks r ∧
        (addEthtoolFdirEntry { fdirConfig true with queues := twoVfs } allFine noRules
          (tcpFlow 1 0x200000000 5)).1.hw r.key = some (r.filter, queue) ∧
        ¬ twoVfs.InVf 1 queue ∧ twoVfs.InVf 0 queue := by
  have hret : (addEthtoolFdirEntry { fdirConfig true with queues := twoVfs } allFine noRules
      (tcpFlow 1 0x200000000 5)).2 = success := by decide +kernel
  obtain ⟨r, queue, hasks, hqueue, hhw⟩ := addEthtoolFdirEntry_hw rfl hret
  have hone : queue = 1 := by
    have heq : addQueue twoVfs 0x200000000 = some 1 := by decide
    exact Option.some.inj (hqueue.symm.trans heq)
  subst hone
  exact ⟨rfl, hret, r, 1, hasks, hhw, fun h => absurd h.1 (by decide), by decide, by decide⟩

end Ixgbe
