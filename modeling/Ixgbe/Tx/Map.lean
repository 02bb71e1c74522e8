import Ixgbe.Hw.DescRing
import Ixgbe.Tx.Buffers

/-! # Putting a packet on the ring

What `ixgbe_xmit_frame_ring` does to the free stretch of the ring that starts at `next_to_use`. -/

namespace Ixgbe

open Ring IndexedTable Function List Nat

/-- In the order in which they were made. -/
def Numbered (mapped : List (ℕ × ℕ)) : Prop :=
  mapped.map Prod.fst = (List.range mapped.length).reverse

theorem Numbered.cons {l : List (ℕ × ℕ)} (h : Numbered l) (size : ℕ) :
    Numbered ((l.length, size) :: l) := by
  rw [Numbered, map_cons, h, length_cons, range_succ, reverse_append]
  rfl

theorem Numbered.nodup {l : List (ℕ × ℕ)} (h : Numbered l) : l.Nodup := by
  refine List.Nodup.of_map Prod.fst ?_
  rw [h]
  exact nodup_reverse.mpr nodup_range

/-- At distance `d` of `m` places from `b`, with the mappings `new` noted not beyond `d`. -/
structure Mapping (n b m : ℕ) (s₀ s : TxState) (d : ℕ) (new : Multiset (ℕ × ℕ)) : Prop where
  count : s.ring.count = n
  nextToUse : s.ring.nextToUse = s₀.ring.nextToUse
  nextToClean : s.ring.nextToClean = s₀.ring.nextToClean
  buf_kept : ∀ i, i ∉ stretch n b 0 m → s.ring.buf i = s₀.ring.buf i
  dd_kept : ∀ i, i ∉ stretch n b 0 m → s.ring.dd i = s₀.ring.dd i
  watch : ∀ i, (s.ring.buf i).nextToWatch = (s₀.ring.buf i).nextToWatch
  skb : ∀ i, (s.ring.buf i).skb = (s₀.ring.buf i).skb
  free : ∀ k, d < k → k < m → (s.ring.buf (slot n b k)).len = 0
  maps : contents m TxBuffer.mapping (fun k => s.ring.buf (slot n b k)) = new
  dd : s.ring.dd (slot n b d) = false
  mapped : (s.log.mapped : Multiset (ℕ × ℕ)) = new + s₀.log.mapped
  numbered : Numbered s.log.mapped
  unmapped : s.log.unmapped = s₀.log.unmapped
  freed : s.log.freed = s₀.log.freed

section

variable {n b m d : ℕ} {s₀ s : TxState} {new : Multiset (ℕ × ℕ)}

theorem slot_mem_stretch {k : ℕ} (hk : k < m) : slot n b k ∈ stretch n b 0 m :=
  mem_stretch.mpr ⟨k, hk, by rw [zero_add]⟩

theorem ne_of_not_mem_stretch (hb : b < n) (hm : 0 < m) {i : ℕ} (hi : i ∉ stretch n b 0 m) :
    i ≠ b := by
  rintro rfl
  have hmem := slot_mem_stretch (n := n) (b := i) hm
  rw [slot_zero hb] at hmem
  exact hi hmem

def TxState.recordMap (s : TxState) (i size : ℕ) : TxState :=
  { ring := { s.ring with
      buf := Function.update s.ring.buf i
        { s.ring.buf i with len := size, dma := s.log.mapped.length } }
    log := { s.log with mapped := (s.log.mapped.length, size) :: s.log.mapped } }

theorem recordMap_buf_of_ne {i j size : ℕ} (h : j ≠ i) :
    (s.recordMap i size).ring.buf j = s.ring.buf j := update_of_ne h ..

theorem recordMap_buf_self (i size : ℕ) : (s.recordMap i size).ring.buf i =
    { s.ring.buf i with len := size, dma := s.log.mapped.length } := update_self ..

theorem recordMap_len_ne {i size : ℕ} (h : 0 < size) :
    ((s.recordMap i size).ring.buf i).len ≠ 0 := by
  rw [recordMap_buf_self]
  exact ne_of_gt h

section

variable (h : Mapping n b m s₀ s d new)

include h

theorem Mapping.record (hmn : m ≤ n) {e size : ℕ} (he : e ≤ d)
    (hd : d < m) (hlen : (s.ring.buf (slot n b e)).len = 0) (hsize : 0 < size) :
    Mapping n b m s₀ (s.recordMap (slot n b e) size) d ((s.log.mapped.length, size) ::ₘ new) := by
  have hbuf : ∀ i, i ≠ slot n b e → (s.recordMap (slot n b e) size).ring.buf i = s.ring.buf i :=
    fun i hi => recordMap_buf_of_ne hi
  have hself := recordMap_buf_self (s := s) (slot n b e) size
  refine ⟨h.count, h.nextToUse, h.nextToClean, fun i hi => ?_, h.dd_kept, ?_, ?_,
    fun k hdk hk => ?_, ?_, h.dd, ?_, h.numbered.cons size, h.unmapped, h.freed⟩
  · -- only the buffer at distance `e` changes, which is inside the stretch
    rw [hbuf i fun hc => hi (hc ▸ slot_mem_stretch (by omega))]
    exact h.buf_kept i hi
  · exact (forall_update_iff s.ring.buf fun i c => c.nextToWatch = _).mpr
      ⟨h.watch _, fun i _ => h.watch i⟩
  · exact (forall_update_iff s.ring.buf fun i c => c.skb = _).mpr ⟨h.skb _, fun i _ => h.skb i⟩
  · rw [hbuf _ (slot_ne (by omega) (by omega) (by omega))]
    exact h.free k hdk hk
  · -- it had no mapping, so the new one comes in addition
    have hnone : (s.ring.buf (slot n b e)).mapping = none := if_pos hlen
    have hsome : (TxBuffer.mapping { s.ring.buf (slot n b e) with
        len := size, dma := s.log.mapped.length }) = some (s.log.mapped.length, size) :=
      if_neg (ne_of_gt hsize)
    rw [← h.maps, ← contents_fill (f := fun k => s.ring.buf (slot n b k))
      (show e < m by omega) hnone hsome]
    refine contents_congr fun k hk => ?_
    by_cases hke : k = e
    · subst hke
      rw [hself, update_self]
    · rw [hbuf _ (slot_ne (by omega) (by omega) hke), update_of_ne hke]
  · change (((s.log.mapped.length, size) :: s.log.mapped : List _) : Multiset (ℕ × ℕ)) = _
    rw [← Multiset.cons_coe, h.mapped, Multiset.cons_add]

theorem Mapping.move {d' : ℕ} (hdd' : d ≤ d') {dd : ℕ → Bool}
    (hkept : ∀ i, i ∉ stretch n b 0 m → dd i = s.ring.dd i) (hdd : dd (slot n b d') = false) :
    Mapping n b m s₀ { s with ring.dd := dd } d' new where
  count := h.count
  nextToUse := h.nextToUse
  nextToClean := h.nextToClean
  buf_kept := h.buf_kept
  dd_kept i hi := (hkept i hi).trans (h.dd_kept i hi)
  watch := h.watch
  skb := h.skb
  free k hk hkm := h.free k (by omega) hkm
  maps := h.maps
  dd := hdd
  mapped := h.mapped
  numbered := h.numbered
  unmapped := h.unmapped
  freed := h.freed

theorem Mapping.split (hn : 0 < n) {size : ℕ} (hsize : 0 < size)
    (hroom : d + descs size ≤ m) : ∃ dd : ℕ → Bool,
    txSplit s (slot n b d) size = (slot n b (d + descs size - 1), { s with ring.dd := dd }) ∧
      Mapping n b m s₀ { s with ring.dd := dd } (d + descs size - 1) new := by
  have hpos := descs_pos hsize
  obtain ⟨dd, heq, hkept, hlast⟩ := txSplit_eq (b := b) hn hsize s h.count d
  refine ⟨dd, heq, h.move (by omega) (fun i hi => hkept i fun hc => hi ?_) (hlast h.dd)⟩
  obtain ⟨j, hj, rfl⟩ := mem_stretch.mp hc
  exact slot_mem_stretch (by omega)

theorem Mapping.next (hd : d + 1 < m) :
    Mapping n b m s₀ (s.clearDd (slot n b (d + 1))) (d + 1) new := by
  refine h.move (le_succ d) (fun i hi => ?_) (update_self ..)
  have hne : i ≠ slot n b (d + 1) := fun hc => hi (hc ▸ slot_mem_stretch hd)
  exact update_of_ne hne ..

end

theorem dmaMap_true (s : TxState) (size : ℕ) : s.dmaMap true size =
    some (s.log.mapped.length,
      { s with log.mapped := (s.log.mapped.length, size) :: s.log.mapped }) := rfl

/-- **The mapping loop** ends past all parts, or where a mapping failed. Buffers before `e` are not
touched. -/
theorem txMapLoop_spec (ok : ℕ → Bool) (hn : 0 < n) (hmn : m ≤ n) (frags : List ℕ)
    (hfrags : ∀ f ∈ frags, 0 < f) {s : TxState} {d e size k : ℕ} {new : Multiset (ℕ × ℕ)}
    (h : Mapping n b m s₀ s d new) (he : e ≤ d)
    (hlen : (s.ring.buf (slot n b e)).len = 0) (hsize : 0 < size)
    (hroom : d + (descs size + (frags.map descs).sum) ≤ m) :
    ∃ (d' : ℕ) (new' : Multiset (ℕ × ℕ)) (s' : TxState), Mapping n b m s₀ s' d' new' ∧ d' < m ∧
      (∀ j < e, s'.ring.buf (slot n b j) = s.ring.buf (slot n b j)) ∧
      ((txMapLoop ok frags s (slot n b d) (slot n b e) size k = (true, slot n b d', s') ∧
          d' + 1 = d + (descs size + (frags.map descs).sum) ∧
          (s'.ring.buf (slot n b e)).len ≠ 0) ∨
        txMapLoop ok frags s (slot n b d) (slot n b e) size k = (false, slot n b d', s')) := by
  -- on the fragments that are left after the part at hand
  induction frags generalizing s d e size k new with
  | nil =>
    have hpos := descs_pos hsize
    rw [map_nil, sum_nil, add_zero] at hroom ⊢
    rw [txMapLoop]
    cases ok k with
    -- the mapping of the last part fails, or is noted and its descriptors are written
    | false => exact ⟨d, new, s, h, by omega, fun _ _ => rfl, .inr rfl⟩
    | true =>
      obtain ⟨dd, heq, hsplit⟩ := (h.record hmn he (by omega) hlen hsize).split hn hsize hroom
      refine ⟨_, _, _, hsplit, by omega, fun j hj => ?_, .inl ⟨?_, by omega, ?_⟩⟩
      · exact recordMap_buf_of_ne (slot_ne (by omega) (by omega) (by omega))
      · rw [dmaMap_true]
        exact congrArg (Prod.mk true) heq
      · exact recordMap_len_ne hsize
  | cons frag frags ih =>
    have hpos := descs_pos hsize
    have hfrag : 0 < frag := hfrags frag (mem_cons_self ..)
    have hfpos := descs_pos hfrag
    rw [map_cons, sum_cons] at hroom ⊢
    cases hok : ok k with
    | false =>
      refine ⟨d, new, s, h, by omega, fun _ _ => rfl, .inr ?_⟩
      rw [txMapLoop, hok]
      rfl
    | true =>
      obtain ⟨dd, heq, hsplit⟩ :=
        (h.record hmn he (by omega) hlen hsize).split hn hsize (by omega)
      have hnext := hsplit.next (by omega)
      have hend : d + descs size - 1 + 1 = d + descs size := by omega
      rw [hend] at hnext
      -- the rest of the loop starts at an empty buffer
      have hstep : txMapLoop ok (frag :: frags) s (slot n b d) (slot n b e) size k =
          txMapLoop ok frags ({ s.recordMap (slot n b e) size with ring.dd := dd }.clearDd
            (slot n b (d + descs size))) (slot n b (d + descs size)) (slot n b (d + descs size))
            frag (k + 1) := by
        have hrec : TxState.modifyBuf { s with log.mapped :=
            (s.log.mapped.length, size) :: s.log.mapped } (slot n b e)
            (fun b => { b with len := size, dma := s.log.mapped.length }) =
              s.recordMap (slot n b e) size := rfl
        -- there is data left, so the loop goes on
        have hsum : ¬ (frag :: frags).sum = 0 := by
          rw [sum_cons]
          omega
        have hplace : next (s.recordMap (slot n b e) size).ring.count
            (slot n b (d + descs size - 1)) = slot n b (d + descs size) := by
          have hcount : (s.recordMap (slot n b e) size).ring.count = n := h.count
          rw [hcount, next_slot hn, hend]
        rw [txMapLoop, hok, dmaMap_true]
        dsimp only
        rw [hrec, heq, if_neg hsum]
        rw [hplace]
      obtain ⟨d', new', s', hmap, hd', hkept, hres⟩ := ih
        (fun f hf => hfrags f (mem_cons_of_mem _ hf)) hnext le_rfl
        (hsplit.free (d + descs size) (by omega) (by omega)) hfrag (k := k + 1) (by omega)
      have hkept' : ∀ j < d + descs size, s'.ring.buf (slot n b j) =
          (s.recordMap (slot n b e) size).ring.buf (slot n b j) := hkept
      refine ⟨d', new', s', hmap, hd', fun j hj => ?_, ?_⟩
      · rw [hkept' j (by omega)]
        exact recordMap_buf_of_ne (slot_ne (by omega) (by omega) (by omega))
      · rw [hstep]
        rcases hres with ⟨hres, hlast, -⟩ | hres
        · refine .inl ⟨hres, by omega, ?_⟩
          rw [hkept' e (by omega)]
          exact recordMap_len_ne hsize
        · exact .inr hres

/-- And the mappings `new` were made. -/
structure Touches (n b m : ℕ) (s s' : TxState) (new : Multiset (ℕ × ℕ)) : Prop where
  count : s'.ring.count = n
  nextToClean : s'.ring.nextToClean = s.ring.nextToClean
  buf_kept : ∀ i, i ∉ stretch n b 0 m → s'.ring.buf i = s.ring.buf i
  dd_kept : ∀ i, i ∉ stretch n b 0 m → s'.ring.dd i = s.ring.dd i
  mapped : (s'.log.mapped : Multiset (ℕ × ℕ)) = new + s.log.mapped
  numbered : Numbered s'.log.mapped

structure PacketSent (n b : ℕ) (s s' : TxState) (p : Packet) : Prop
    extends Touches n b p.ndesc s s' p.maps where
  nextToUse : s'.ring.nextToUse = slot n b p.ndesc
  packet : PacketAt n s'.ring.buf b p
  dd : s'.ring.dd (slot n b (p.ndesc - 1)) = false
  unmapped : s'.log.unmapped = s.log.unmapped
  freed : s'.log.freed = s.log.freed

/-- The stretch is free again, and what was mapped is unmapped. -/
structure NothingSent (n b m : ℕ) (s s' : TxState) (skb : ℕ) (new : Multiset (ℕ × ℕ)) : Prop
    extends Touches n b m s s' new where
  nextToUse : s'.ring.nextToUse = b
  free : ∀ k < m, (s'.ring.buf (slot n b k)).Free
  unmapped : (s'.log.unmapped : Multiset (ℕ × ℕ)) = new + s.log.unmapped
  freed : s'.log.freed = skb :: s.log.freed

theorem Mapping.unwind (h : Mapping n b m s₀ s d new) (hb : b < n) (hmn : m ≤ n) (hd : d < m) :
    ∃ s' : TxState, txUnwind b s.ring.count s (slot n b d) = some s' ∧
      s'.ring = { s.ring with buf := emptied s.ring.buf (stretch n b 0 (d + 1)).reverse } ∧
      s'.log.mapped = s.log.mapped ∧ s'.log.freed = s.log.freed ∧
      (s'.log.unmapped : Multiset (ℕ × ℕ)) = new + s.log.unmapped := by
  have hn : 0 < n := zero_lt_of_lt hb
  have hfuel : d < s.ring.count := by
    rw [h.count]
    omega
  have heq := txUnwind_eq hn hb s h.count (by omega) hfuel
  rw [foldl_unmapPage _ (nodup_reverse.mpr (nodup_stretch (by omega)))] at heq
  refine ⟨_, heq, rfl, rfl, rfl, ?_⟩
  -- beyond distance `d` no mapping is noted, so the walk back meets all of them
  have hmaps : contents (d + 1) TxBuffer.mapping (fun k => s.ring.buf (slot n b (0 + k))) =
      new := by
    rw [← h.maps]
    simp only [zero_add]
    exact (contents_of_empty_tail hd fun k hk hkm => if_pos (h.free k hk hkm)).symm
  rw [filterMap_reverse, reverse_reverse, ← Multiset.coe_add, filterMap_stretch, hmaps]

def TxState.handOver (s : TxState) (first eop : ℕ) : TxState :=
  let s := s.modifyBuf first fun b => { b with nextToWatch := some eop }
  { s with ring.nextToUse := Ring.next s.ring.count eop }

def TxState.giveUp (s : TxState) (first : ℕ) : TxState :=
  let s := s.freeSkb (s.ring.buf first).skb
  let s := s.modifyBuf first fun b => { b with skb := none }
  { s with ring.nextToUse := first }

theorem txMap_of_loop {ok : ℕ → Bool} {skb : Skb} {s s' : TxState} {first i : ℕ}
    (h : txMapLoop ok skb.frags (s.clearDd s.ring.nextToUse) s.ring.nextToUse first skb.headlen 0 =
      (true, i, s')) : txMap s first skb ok = some (true, s'.handOver first i) := by
  rw [txMap, h]
  rfl

theorem Mapping.handOver (h : Mapping n b m s₀ s d new) (hb : b < n) (hmn : m ≤ n) (hd : d + 1 = m)
    (hfree : ∀ k < m, (s₀.ring.buf (slot n b k)).nextToWatch = none)
    (hfirst : (s.ring.buf b).len ≠ 0) {skb : ℕ} (hskb : (s₀.ring.buf b).skb = some skb) :
    PacketSent n b s₀ (s.handOver b (slot n b d)) ⟨skb, m, new⟩ := by
  have hn : 0 < n := zero_lt_of_lt hb
  have hself : (s.handOver b (slot n b d)).ring.buf b =
      { s.ring.buf b with nextToWatch := some (slot n b d) } := update_self ..
  have hbuf : ∀ i, i ≠ b → (s.handOver b (slot n b d)).ring.buf i = s.ring.buf i := fun i hi =>
    update_of_ne hi ..
  refine ⟨⟨h.count, h.nextToClean, fun i hi => ?_, h.dd_kept, h.mapped, h.numbered⟩, ?_,
    ⟨hd ▸ succ_pos d, ?_, ?_, ?_, fun j hj hjm => ?_, ?_⟩, ?_, h.unmapped, h.freed⟩
  · rw [hbuf i (ne_of_not_mem_stretch hb (hd ▸ succ_pos d) hi)]
    exact h.buf_kept i hi
  · change Ring.next s.ring.count (slot n b d) = slot n b m
    rw [h.count, next_slot hn, hd]
  · rw [hself, ← hd]
    rfl
  · rw [hself]
    exact (h.skb b).trans hskb
  · rw [hself]
    exact hfirst
  · -- the buffers behind the first one watch nothing
    have hne : slot n b j ≠ b := by
      have := slot_ne (b := b) (show j < n from hjm.trans_le hmn) hn (ne_of_gt hj)
      rwa [slot_zero hb] at this
    rw [hbuf _ hne]
    exact (h.watch _).trans (hfree j hjm)
  · rw [← h.maps]
    refine contents_congr fun j _ => ?_
    by_cases hj : slot n b j = b
    · rw [hj, hself]
      rfl
    · rw [hbuf _ hj]
  · change s.ring.dd (slot n b (m - 1)) = false
    rw [← hd]
    exact h.dd

theorem Mapping.giveUp (h : Mapping n b m s₀ s d new) (hb : b < n) (hd : d < m)
    (hfree : ∀ k < m, (s₀.ring.buf (slot n b k)).nextToWatch = none)
    {skb : ℕ} (hskb : (s₀.ring.buf b).skb = some skb) {s' : TxState}
    (hring : s'.ring = { s.ring with buf := emptied s.ring.buf (stretch n b 0 (d + 1)).reverse })
    (hmapped : s'.log.mapped = s.log.mapped) (hfreed : s'.log.freed = s.log.freed)
    (hunmapped : (s'.log.unmapped : Multiset (ℕ × ℕ)) = new + s.log.unmapped) :
    NothingSent n b m s₀ (s'.giveUp b) skb new := by
  have hskb' : (s'.ring.buf b).skb = some skb := by
    rw [hring, ← hskb, ← h.skb b]
    exact emptied_skb ..
  -- clearing the packet pointer keeps the other fields of the first buffer
  obtain ⟨buf, hgive, hbuf, hfields⟩ : ∃ buf : ℕ → TxBuffer,
      s'.giveUp b = { ring := { s'.ring with nextToUse := b, buf := buf }
                      log := { s'.log with freed := skb :: s'.log.freed } } ∧
      (∀ i, i ≠ b → buf i = s'.ring.buf i) ∧
      ∀ i, (buf i).len = (s'.ring.buf i).len ∧
        (buf i).nextToWatch = (s'.ring.buf i).nextToWatch := by
    refine ⟨update s'.ring.buf b { s'.ring.buf b with skb := none }, ?_,
      fun i hi => update_of_ne hi .., fun i => ?_⟩
    · rw [TxState.giveUp, hskb']
      rfl
    · by_cases hi : i = b
      · rw [hi, update_self]
        exact ⟨rfl, rfl⟩
      · rw [update_of_ne hi]
        exact ⟨rfl, rfl⟩
  rw [hgive]
  refine ⟨⟨?_, ?_, fun i hi => ?_, fun i hi => ?_, ?_, ?_⟩, rfl, fun k hk => ⟨?_, ?_⟩, ?_, ?_⟩
  · rw [hring]
    exact h.count
  · rw [hring]
    exact h.nextToClean
  · have hi' : i ∉ (stretch n b 0 (d + 1)).reverse := fun hc => by
      obtain ⟨k, hk, hki⟩ := mem_stretch.mp (mem_reverse.mp hc)
      exact hi (mem_stretch.mpr ⟨k, by omega, hki⟩)
    refine (hbuf i (ne_of_not_mem_stretch hb (zero_lt_of_lt hd) hi)).trans ?_
    rw [hring]
    exact (emptied_of_not_mem _ hi').trans (h.buf_kept i hi)
  · rw [hring]
    exact h.dd_kept i hi
  · rw [hmapped]
    exact h.mapped
  · rw [hmapped]
    exact h.numbered
  · -- the buffers up to distance `d` were emptied, those beyond it were empty
    refine (hfields _).1.trans ?_
    rw [hring]
    by_cases hmem : slot n b k ∈ (stretch n b 0 (d + 1)).reverse
    · exact congrArg TxBuffer.len (emptied_of_mem _ hmem)
    · have hkd : ¬ k < d + 1 := fun hc => hmem (mem_reverse.mpr (slot_mem_stretch hc))
      exact (congrArg TxBuffer.len (emptied_of_not_mem _ hmem)).trans (h.free k (by omega) hk)
  · refine (hfields _).2.trans ?_
    rw [hring]
    exact (emptied_watch ..).trans ((h.watch _).trans (hfree k hk))
  · rw [hunmapped, h.unmapped]
  · rw [hfreed, h.freed]

/-- **`ixgbe_tx_map`** on a free stretch with room: the packet is on the ring, or nothing is. -/
theorem txMap_spec (ok : ℕ → Bool) (skb : Skb) {c : ℕ} (hb : b < n) (hcount : s.ring.count = n)
    (huse : s.ring.nextToUse = slot n b c) (hhead : 0 < skb.headlen)
    (hfrags : ∀ f ∈ skb.frags, 0 < f)
    (hm : m = c + (descs skb.headlen + (skb.frags.map descs).sum)) (hmn : m ≤ n)
    (hfree : ∀ k < m, (s.ring.buf (slot n b k)).Free)
    (hskb : (s.ring.buf b).skb = some skb.id) (hnum : Numbered s.log.mapped) :
    ∃ (new : Multiset (ℕ × ℕ)) (s' : TxState),
      (txMap s b skb ok = some (true, s') ∧ PacketSent n b s s' ⟨skb.id, m, new⟩) ∨
      (txMap s b skb ok = some (false, s') ∧ NothingSent n b m s s' skb.id new) := by
  have hpos := descs_pos hhead
  have hn : 0 < n := zero_lt_of_lt hb
  have hc : c < m := by omega
  -- before the loop: nothing mapped, and the first data descriptor written
  have hstart : Mapping n b m s (s.clearDd (slot n b c)) c 0 := by
    refine ⟨hcount, rfl, rfl, fun _ _ => rfl, fun i hi => ?_, fun _ => rfl, fun _ => rfl,
      fun k _ hk => (hfree k hk).1, contents_eq_zero fun k hk => if_pos (hfree k hk).1,
      update_self .., (zero_add _).symm, hnum, rfl, rfl⟩
    have hne : i ≠ slot n b c := fun h => hi (h ▸ slot_mem_stretch hc)
    exact update_of_ne hne ..
  obtain ⟨d, new, s', h, hd, -, hres⟩ := txMapLoop_spec ok hn hmn skb.frags hfrags (k := 0) hstart
    (zero_le c) (hfree 0 (by omega)).1 hhead (by omega)
  rw [slot_zero hb] at hres
  have hwatch : ∀ k < m, (s.ring.buf (slot n b k)).nextToWatch = none := fun k hk => (hfree k hk).2
  rcases hres with ⟨hres, hlast, hfirst⟩ | hres
  · refine ⟨new, s'.handOver b (slot n b d), .inl ⟨?_, ?_⟩⟩
    · exact txMap_of_loop (huse ▸ hres)
    · exact h.handOver hb hmn (by omega) hwatch hfirst hskb
  · -- a mapping failed: `dma_error`
    obtain ⟨s'', hunwind, hring, hmapped, hfreed, hunmapped⟩ := h.unwind hb hmn hd
    refine ⟨new, s''.giveUp b, .inr ⟨?_, ?_⟩⟩
    · rw [txMap, huse, hres]
      dsimp only
      rw [hunwind]
      rfl
    · exact h.giveUp hb hd hwatch hskb hring hmapped hfreed hunmapped

theorem Touches.prepend {s1 s' : TxState} (h : Touches n b m s1 s' new)
    (hclean : s1.ring.nextToClean = s.ring.nextToClean)
    (hbuf : ∀ i, i ∉ stretch n b 0 m → s1.ring.buf i = s.ring.buf i)
    (hdd : ∀ i, i ∉ stretch n b 0 m → s1.ring.dd i = s.ring.dd i) (hlog : s1.log = s.log) :
    Touches n b m s s' new where
  count := h.count
  nextToClean := h.nextToClean.trans hclean
  buf_kept i hi := (h.buf_kept i hi).trans (hbuf i hi)
  dd_kept i hi := (h.dd_kept i hi).trans (hdd i hi)
  mapped := hlog ▸ h.mapped
  numbered := h.numbered

end

def Skb.dataDescs (skb : Skb) : ℕ := descs skb.headlen + (skb.frags.map descs).sum

/-- No part of the packet is empty. -/
def Skb.WellFormed (skb : Skb) : Prop := 0 < skb.headlen ∧ ∀ f ∈ skb.frags, 0 < f

/-- They can be counted in 16 bits, with the reserve. -/
def Skb.Countable (skb : Skb) : Prop := skb.dataDescs + 3 < 2 ^ 16

instance : DecidablePred Skb.Countable := fun _ => inferInstanceAs (Decidable (_ < _))

def Offload.descs : Offload → ℕ
  | .context => 1
  | _ => 0

theorem txdUseCount_eq {size : ℕ} (h : descs size < 2 ^ 16) : txdUseCount size = descs size := by
  rw [descs] at h
  rw [txdUseCount, descs]
  simp only [maxDataPerTxd] at h ⊢
  omega

theorem useCount_eq {skb : Skb} (h : skb.Countable) : skb.useCount = skb.dataDescs := by
  -- no term of the sum is cut off to 16 bits
  have hsum : ∀ l : List ℕ, (l.map descs).sum < 2 ^ 16 →
      (l.map txdUseCount).sum = (l.map descs).sum := fun l => by
    induction l with
    | nil =>
      intro _
      rw [map_nil, map_nil]
    | cons size l ih =>
      intro hlt
      rw [map_cons, sum_cons] at hlt
      rw [map_cons, map_cons, sum_cons, sum_cons, txdUseCount_eq (by omega), ih (by omega)]
  rw [Skb.Countable, Skb.dataDescs] at h
  rw [Skb.dataDescs, Skb.useCount, txdUseCount_eq (by omega), hsum _ (by omega)]
  exact mod_eq_of_lt (by omega)

theorem descUnused_eq {r : TxRing} {t : ℕ} (hn : r.count < 2 ^ 16)
    (hclean : r.nextToClean < r.count) (ht : t < r.count)
    (huse : r.nextToUse = slot r.count r.nextToClean t) : r.descUnused = r.count - 1 - t := by
  rw [TxRing.descUnused, huse, ← descUnused_slot hn hclean ht]
  rfl

section

variable {n b : ℕ} {s : TxState} {skb : Skb}

def xmitResult (r : Bool × TxState) : XmitResult × TxState := (if r.1 then .sent else .failed, r.2)

theorem txCtxtdesc_nextToUse (hb : s.ring.nextToUse < s.ring.count) :
    (txCtxtdesc s).ring.nextToUse = slot s.ring.count s.ring.nextToUse 1 := by
  rw [← next_eq_slot hb, Ring.next]
  change (if s.ring.nextToUse + 1 < s.ring.count then s.ring.nextToUse + 1 else 0) = _
  split
  · rw [if_neg (by omega)]
  · rw [if_pos (by omega)]

theorem txMap_of_noted (s1 : TxState) (ok : ℕ → Bool) (hskb : skb.WellFormed) {c : ℕ} (hb : b < n)
    (hroom : c + skb.dataDescs ≤ n)
    (hfree : ∀ k < c + skb.dataDescs, (s.ring.buf (slot n b k)).Free)
    (hnum : Numbered s.log.mapped) (hcount : s1.ring.count = n)
    (huse : s1.ring.nextToUse = slot n b c) (hclean : s1.ring.nextToClean = s.ring.nextToClean)
    (hbuf : s1.ring.buf =
      update s.ring.buf b { s.ring.buf b with skb := some skb.id })
    (hdd : ∀ i, i ≠ b → s1.ring.dd i = s.ring.dd i) (hlog : s1.log = s.log) :
    ∃ (new : Multiset (ℕ × ℕ)) (s' : TxState),
      ((txMap s1 b skb ok).map xmitResult = some (.sent, s') ∧
        PacketSent n b s s' ⟨skb.id, c + skb.dataDescs, new⟩) ∨
      ((txMap s1 b skb ok).map xmitResult = some (.failed, s') ∧
        NothingSent n b (c + skb.dataDescs) s s' skb.id new) := by
  have hpos : 0 < c + skb.dataDescs := Nat.lt_add_left c (Nat.add_pos_left (descs_pos hskb.1) _)
  have hself : s1.ring.buf b = { s.ring.buf b with skb := some skb.id } := by
    rw [hbuf]
    exact update_self ..
  have hother : ∀ i, i ≠ b → s1.ring.buf i = s.ring.buf i := fun i hi => by
    rw [hbuf]
    exact update_of_ne hi ..
  -- the packet pointer does not make a buffer used
  have hfree1 : ∀ k < c + skb.dataDescs, (s1.ring.buf (slot n b k)).Free := fun k hk => by
    by_cases hkb : slot n b k = b
    · have := hfree k hk
      rw [hkb] at this
      rw [hkb, hself]
      exact this
    · rw [hother _ hkb]
      exact hfree k hk
  have hout : ∀ i, i ∉ stretch n b 0 (c + skb.dataDescs) → i ≠ b := fun i hi =>
    ne_of_not_mem_stretch hb hpos hi
  obtain ⟨new, s', ⟨heq, h⟩ | ⟨heq, h⟩⟩ := txMap_spec ok skb hb hcount huse hskb.1 hskb.2 rfl hroom
    hfree1 (by rw [hself]) (by rwa [hlog])
  · have ht := h.toTouches.prepend hclean (fun i hi => hother i (hout i hi))
      (fun i hi => hdd i (hout i hi)) hlog
    refine ⟨new, s', .inl ⟨?_, ht, h.nextToUse, h.packet, h.dd, hlog ▸ h.unmapped, hlog ▸ h.freed⟩⟩
    rw [heq]
    rfl
  · have ht := h.toTouches.prepend hclean (fun i hi => hother i (hout i hi))
      (fun i hi => hdd i (hout i hi)) hlog
    refine ⟨new, s', .inr ⟨?_, ht, h.nextToUse, h.free, hlog ▸ h.unmapped, hlog ▸ h.freed⟩⟩
    rw [heq]
    rfl

theorem room_of_not_stopped {t : ℕ} (hfit : skb.Countable) (hn : s.ring.count < 2 ^ 16)
    (hclean : s.ring.nextToClean < s.ring.count) (ht : t < s.ring.count)
    (huse : s.ring.nextToUse = slot s.ring.count s.ring.nextToClean t)
    (h : ¬ s.ring.maybeStopTx (skb.useCount + 3)) : t + skb.dataDescs + 3 < s.ring.count := by
  have hlt : skb.dataDescs + 3 < 2 ^ 16 := hfit
  rw [TxRing.maybeStopTx, decide_eq_true_iff, useCount_eq hfit, descUnused_eq hn hclean ht huse,
    mod_eq_of_lt hlt] at h
  omega

theorem drop_nothingSent {s' : TxState} (hb : b < n) (hcount : s.ring.count = n)
    (huse : s.ring.nextToUse = b) (hfree : (s.ring.buf b).Free) (hnum : Numbered s.log.mapped)
    (hs' : s' = { ring := { s.ring with
                    buf := update s.ring.buf b { s.ring.buf b with skb := none } }
                  log := { s.log with freed := skb.id :: s.log.freed } }) :
    NothingSent n b 1 s s' skb.id 0 := by
  subst hs'
  refine ⟨⟨hcount, rfl, fun i hi => ?_, fun _ _ => rfl, (zero_add _).symm, hnum⟩, huse,
    fun k hk => ?_, (zero_add _).symm, rfl⟩
  · exact update_of_ne (ne_of_not_mem_stretch hb one_pos hi) ..
  · rw [lt_one_iff.mp hk, slot_zero hb]
    dsimp only
    rw [update_self]
    exact hfree

/-- **`ixgbe_xmit_frame_ring`** with `t` descriptors in use: it refuses the packet, puts it on the
ring, or gives it back with nothing left on the ring. -/
theorem xmitFrameRing_spec (offload : Offload) (ok : ℕ → Bool) {t : ℕ} (hskb : skb.WellFormed)
    (hfit : skb.Countable) (hn : s.ring.count < 2 ^ 16)
    (hclean : s.ring.nextToClean < s.ring.count) (ht : t < s.ring.count)
    (huse : s.ring.nextToUse = slot s.ring.count s.ring.nextToClean t)
    (hfree : ∀ k, t ≤ k → k < s.ring.count →
      (s.ring.buf (slot s.ring.count s.ring.nextToClean k)).Free)
    (hnum : Numbered s.log.mapped) :
    xmitFrameRing s skb offload ok = some (.busy, s) ∨
    ∃ (m : ℕ) (new : Multiset (ℕ × ℕ)) (s' : TxState), t + m < s.ring.count ∧
      ((xmitFrameRing s skb offload ok = some (.sent, s') ∧ m = offload.descs + skb.dataDescs ∧
          PacketSent s.ring.count s.ring.nextToUse s s' ⟨skb.id, m, new⟩) ∨
        ∃ r, (r = .dropped ∨ r = .failed) ∧ xmitFrameRing s skb offload ok = some (r, s') ∧
          NothingSent s.ring.count s.ring.nextToUse m s s' skb.id new) := by
  by_cases hstop : s.ring.maybeStopTx (skb.useCount + 3)
  · left
    rw [xmitFrameRing, if_pos hstop]
  right
  rw [xmitFrameRing, if_neg hstop]
  have hroom := room_of_not_stopped hfit hn hclean ht huse hstop
  have hb : s.ring.nextToUse < s.ring.count := by
    rw [huse]
    exact slot_lt (by omega) ..
  have hfree' : ∀ k, t + k < s.ring.count →
      (s.ring.buf (slot s.ring.count s.ring.nextToUse k)).Free := fun k hk => by
    rw [huse, slot_slot]
    exact hfree _ (le_add_right t k) hk
  cases offload with
  | drop =>
    refine ⟨1, 0, _, by omega, .inr ⟨.dropped, .inl rfl, ?_,
      drop_nothingSent hb rfl rfl (slot_zero hb ▸ hfree' 0 (by omega)) hnum rfl⟩⟩
    simp [TxState.modifyBuf, TxState.freeSkb]
  | plain =>
    obtain ⟨new, s', h⟩ := txMap_of_noted (c := 0)
      (s.modifyBuf s.ring.nextToUse fun b => { b with skb := some skb.id }) ok hskb hb
      (by omega) (fun k hk => hfree' k (by omega)) hnum rfl (slot_zero hb).symm rfl rfl
      (fun _ _ => rfl) rfl
    refine ⟨0 + skb.dataDescs, new, s', by omega, ?_⟩
    rcases h with ⟨heq, h⟩ | ⟨heq, h⟩
    · exact .inl ⟨heq, rfl, h⟩
    · exact .inr ⟨.failed, .inr rfl, heq, h⟩
  | context =>
    obtain ⟨new, s', h⟩ := txMap_of_noted (c := 1)
      (txCtxtdesc (s.modifyBuf s.ring.nextToUse fun b => { b with skb := some skb.id })) ok
      hskb hb (by omega) (fun k hk => hfree' k (by omega)) hnum rfl
        (txCtxtdesc_nextToUse hb) rfl rfl
      (fun _ hi => update_of_ne hi ..) rfl
    refine ⟨1 + skb.dataDescs, new, s', by omega, ?_⟩
    rcases h with ⟨heq, h⟩ | ⟨heq, h⟩
    · exact .inl ⟨heq, rfl, h⟩
    · exact .inr ⟨.failed, .inr rfl, heq, h⟩

end

end Ixgbe
