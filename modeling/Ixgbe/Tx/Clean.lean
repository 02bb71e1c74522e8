import Ixgbe.Tx.Buffers

/-! # Taking packets off the ring

What `ixgbe_clean_tx_irq` does to a ring on which packets lie one after another. -/

namespace Ixgbe

open Ring IndexedTable Function List Nat

def totalDescs (q : List Packet) : ℕ := (q.map Packet.ndesc).sum

@[simp] theorem totalDescs_nil : totalDescs [] = 0 := rfl

@[simp] theorem totalDescs_cons (p : Packet) (q : List Packet) :
    totalDescs (p :: q) = p.ndesc + totalDescs q := rfl

@[simp] theorem totalDescs_append (q q' : List Packet) :
    totalDescs (q ++ q') = totalDescs q + totalDescs q' := by
  simp [totalDescs]

theorem totalDescs_take_add {q : List Packet} {k : ℕ} {p : Packet} (hp : q[k]? = some p) :
    totalDescs (q.take k) + p.ndesc ≤ totalDescs q := by
  induction q generalizing k with
  | nil => simp at hp
  | cons p' q ih =>
    cases k with
    | zero =>
      obtain rfl : p' = p := by simpa using hp
      simp
    | succ k =>
      have := ih (k := k) (by simpa using hp)
      simp only [take_succ_cons, totalDescs_cons]
      omega

/-- The hardware has completed the first `done` of them. -/
def TxRing.Laid (r : TxRing) (n : ℕ) : ℕ → List Packet → ℕ → Prop
  | _, [], _ => True
  | b, p :: q, done => PacketAt n r.buf b p ∧ r.dd (slot n b (p.ndesc - 1)) = decide (0 < done) ∧
      r.Laid n (slot n b p.ndesc) q (done - 1)

section

variable {n b : ℕ} {r r' : TxRing} {q : List Packet} {done : ℕ}

section

variable (h : r.Laid n b q done)

include h

theorem TxRing.Laid.congr (hb : b < n)
    (hbuf : ∀ k < totalDescs q, r'.buf (slot n b k) = r.buf (slot n b k))
    (hdd : ∀ k < totalDescs q, r'.dd (slot n b k) = r.dd (slot n b k)) : r'.Laid n b q done := by
  induction q generalizing b done with
  | nil => trivial
  | cons p q ih =>
    obtain ⟨hp, hlast, hq⟩ := h
    have hpos := hp.pos
    rw [totalDescs_cons] at hbuf hdd
    refine ⟨hp.congr hb fun j hj => hbuf j (by omega), ?_, ih hq (slot_lt (by omega) ..) ?_ ?_⟩
    · rw [hdd _ (by omega)]
      exact hlast
    · intro k hk
      rw [slot_slot]
      exact hbuf _ (by omega)
    · intro k hk
      rw [slot_slot]
      exact hdd _ (by omega)

theorem TxRing.Laid.ndesc_pos {p : Packet} (hp : p ∈ q) : 0 < p.ndesc := by
  induction q generalizing b done with
  | nil => exact absurd hp (not_mem_nil)
  | cons p' q ih =>
    rcases mem_cons.mp hp with rfl | hp
    · exact h.1.pos
    · exact ih h.2.2 hp

theorem TxRing.Laid.length_le : q.length ≤ totalDescs q := by
  induction q generalizing b done with
  | nil => exact zero_le _
  | cons p q ih =>
    have hq := ih h.2.2
    have hpos := h.1.pos
    rw [length_cons, totalDescs_cons]
    omega

theorem TxRing.Laid.append (hb : b < n) {p : Packet}
    (hp : PacketAt n r.buf (slot n b (totalDescs q)) p)
    (hdd : r.dd (slot n b (totalDescs q + (p.ndesc - 1))) = decide (q.length < done)) :
    r.Laid n b (q ++ [p]) done := by
  induction q generalizing b done with
  | nil =>
    rw [totalDescs_nil, slot_zero hb] at hp
    rw [totalDescs_nil, zero_add] at hdd
    exact ⟨hp, hdd, trivial⟩
  | cons p' q ih =>
    obtain ⟨hp', hlast, hq⟩ := h
    refine ⟨hp', hlast, ih hq (slot_lt (by omega) ..) ?_ ?_⟩
    · rw [slot_slot]
      exact hp
    · rw [slot_slot, ← Nat.add_assoc]
      refine hdd.trans (decide_eq_decide.mpr ?_)
      rw [length_cons]
      omega

theorem TxRing.Laid.drop (hb : b < n) (k : ℕ) :
    r.Laid n (slot n b (totalDescs (q.take k))) (q.drop k) (done - k) := by
  induction q generalizing b done k with
  | nil =>
    rw [drop_nil]
    trivial
  | cons p q ih =>
    cases k with
    | zero =>
      rw [take_zero, totalDescs_nil, slot_zero hb]
      exact h
    | succ k =>
      have hrest := ih h.2.2 (slot_lt (by omega) ..) k
      rw [slot_slot, Nat.sub_sub, Nat.add_comm 1] at hrest
      exact hrest

theorem TxRing.Laid.complete (hb : b < n) (hq : totalDescs q ≤ n)
    {p : Packet} (hp : q[done]? = some p) :
    TxRing.Laid { r with
      dd := update r.dd (slot n b (totalDescs (q.take done) + (p.ndesc - 1))) true } n b q
      (done + 1) := by
  induction q generalizing b done with
  | nil => trivial
  | cons p' q ih =>
    -- the completed packet is the first one, or one of the others, counted from behind the first
    have hppos := h.ndesc_pos (mem_of_getElem? hp)
    obtain ⟨hp', hlast, hlaid⟩ := h
    have hpos := hp'.pos
    have hroom := totalDescs_take_add hp
    rw [totalDescs_cons] at hq hroom
    have hn : 0 < n := by omega
    cases done with
    | zero =>
      obtain rfl : p' = p := by simpa using hp
      rw [take_zero, totalDescs_nil, zero_add]
      refine ⟨hp', update_self .., ?_⟩
      refine hlaid.congr (slot_lt hn ..) (fun _ _ => rfl) fun k hk => ?_
      rw [slot_slot]
      exact update_of_ne (slot_ne (by omega) (by omega) (by omega)) ..
    | succ done =>
      rw [take_succ_cons, totalDescs_cons] at hroom ⊢
      refine ⟨hp', ?_, ?_⟩
      · exact (update_of_ne (slot_ne (by omega) (by omega) (by omega)) ..).trans hlast
      · have hrest := ih hlaid (slot_lt hn ..) (by omega) (by simpa using hp)
        rw [slot_slot, ← Nat.add_assoc] at hrest
        exact hrest

end

end

/-- From a stretch of `m` places after `b`. -/
structure Cleaned (n b m : ℕ) (s s' : TxState) (skbs : Multiset ℕ) (maps : Multiset (ℕ × ℕ)) :
    Prop where
  count : s'.ring.count = s.ring.count
  nextToUse : s'.ring.nextToUse = s.ring.nextToUse
  nextToClean : s'.ring.nextToClean = s.ring.nextToClean
  dd : s'.ring.dd = s.ring.dd
  buf_kept : ∀ i, i ∉ stretch n b 0 m → s'.ring.buf i = s.ring.buf i
  free : ∀ k < m, (s'.ring.buf (slot n b k)).Free
  mapped : s'.log.mapped = s.log.mapped
  unmapped : (s'.log.unmapped : Multiset (ℕ × ℕ)) = maps + s.log.unmapped
  freed : (s'.log.freed : Multiset ℕ) = skbs + s.log.freed

section

variable {n b : ℕ} {s s' : TxState}

theorem Cleaned.refl (n b : ℕ) (s : TxState) : Cleaned n b 0 s s 0 0 :=
  ⟨rfl, rfl, rfl, rfl, fun _ _ => rfl, fun _ hk => absurd hk (not_lt_zero _), rfl,
    (zero_add _).symm, (zero_add _).symm⟩

theorem not_mem_stretch {m k : ℕ} (hmk : m ≤ k) (hk : k < n) : slot n b k ∉ stretch n b 0 m :=
  fun hc => by
    obtain ⟨j, hj, heq⟩ := mem_stretch.mp hc
    have := slot_inj (by omega) hk heq
    omega

theorem not_mem_stretch_after {m m' k : ℕ} (hk : k < m) (hm : m + m' ≤ n) :
    slot n b k ∉ stretch n (slot n b m) 0 m' := fun hc => by
  obtain ⟨j, hj, heq⟩ := mem_stretch.mp hc
  rw [slot_slot] at heq
  have := slot_inj (by omega) (by omega) heq
  omega

theorem Cleaned.trans {m m' : ℕ} {s'' : TxState} {skbs skbs' : Multiset ℕ}
    {maps maps' : Multiset (ℕ × ℕ)} (h : Cleaned n b m s s' skbs maps)
    (h' : Cleaned n (slot n b m) m' s' s'' skbs' maps') (hm : m + m' ≤ n) :
    Cleaned n b (m + m') s s'' (skbs + skbs') (maps + maps') where
  count := h'.count.trans h.count
  nextToUse := h'.nextToUse.trans h.nextToUse
  nextToClean := h'.nextToClean.trans h.nextToClean
  dd := h'.dd.trans h.dd
  buf_kept i hi := by
    have hi1 : i ∉ stretch n b 0 m := fun hc => by
      obtain ⟨j, hj, rfl⟩ := mem_stretch.mp hc
      exact hi (mem_stretch.mpr ⟨j, by omega, rfl⟩)
    have hi2 : i ∉ stretch n (slot n b m) 0 m' := fun hc => by
      obtain ⟨j, hj, rfl⟩ := mem_stretch.mp hc
      rw [slot_slot] at hi
      exact hi (mem_stretch.mpr ⟨m + (0 + j), by omega, by rw [zero_add]⟩)
    exact (h'.buf_kept i hi2).trans (h.buf_kept i hi1)
  free k hk := by
    -- the second stretch leaves the places of the first alone
    by_cases hkm : k < m
    · rw [h'.buf_kept _ (not_mem_stretch_after hkm hm)]
      exact h.free k hkm
    · have := h'.free (k - m) (by omega)
      rwa [slot_slot, Nat.add_sub_cancel' (Nat.not_lt.mp hkm)] at this
  mapped := h'.mapped.trans h.mapped
  unmapped := by rw [h'.unmapped, h.unmapped, add_left_comm, add_assoc]
  freed := by rw [h'.freed, h.freed, add_left_comm, add_assoc]

theorem cleanHead_eq {pos skb : ℕ} (hskb : (s.ring.buf pos).skb = some skb) : cleanHead s pos =
    { ring := { s.ring with
        buf := update s.ring.buf pos
          { s.ring.buf pos with nextToWatch := none, len := 0 } }
      log := { s.log with
        unmapped := ((s.ring.buf pos).dma, (s.ring.buf pos).len) :: s.log.unmapped
        freed := skb :: s.log.freed } } := by
  simp [cleanHead, TxState.modifyBuf, TxState.unmapSingle, TxState.freeSkb, hskb]

theorem PacketAt.maps_eq {p : Packet} (h : PacketAt n s.ring.buf b p) (hb : b < n) :
    p.maps = ((s.ring.buf b).dma, (s.ring.buf b).len) ::ₘ contents (p.ndesc - 1) TxBuffer.mapping
      fun j => s.ring.buf (slot n b (1 + j)) := by
  have hfirst : (s.ring.buf b).mapping = some ((s.ring.buf b).dma, (s.ring.buf b).len) :=
    if_neg h.len
  rw [← h.maps, ← Nat.add_sub_cancel' (Nat.succ_le_of_lt h.pos), contents_add,
    Nat.add_sub_cancel_left, contents_eq_coe 1]
  simp [slot_zero hb, hfirst]

theorem PacketAt.clean {p : Packet} (h : PacketAt n s.ring.buf b p) (hn : n < 2 ^ 16) (hb : b < n)
    (hp : p.ndesc ≤ n) (hcount : s.ring.count = n) : ∃ s' : TxState,
    cleanTail (slot n b (p.ndesc - 1)) s.ring.count (cleanHead s b) (.at n b) =
        some (s', .at n (slot n b (p.ndesc - 1))) ∧
      Cleaned n b p.ndesc s s' {p.skb} p.maps := by
  have hpos := h.pos
  have hhead := cleanHead_eq h.skb
  have hcount' : (cleanHead s b).ring.count = n := by
    rw [hhead]
    exact hcount
  have hfuel : p.ndesc - 1 < s.ring.count := by omega
  have htail := cleanTail_eq (b := b) hn (cleanHead s b) hcount' (a := 0) (by omega) hfuel
  rw [slot_zero hb, zero_add, zero_add, foldl_unmapPage _ (nodup_stretch (by omega)), hhead]
    at htail
  rw [hhead]
  refine ⟨_, htail, ?_⟩
  -- the first buffer is not among the remaining ones
  have hne : ∀ k, 0 < k → k < n → slot n b k ≠ b := fun k hk hkn => by
    have := slot_ne (b := b) hkn (by omega) (ne_of_gt hk)
    rwa [slot_zero hb] at this
  have hfirst : b ∉ stretch n b (0 + 1) (p.ndesc - 1) := fun hc => by
    obtain ⟨j, hj, heq⟩ := mem_stretch.mp hc
    exact hne _ (by omega) (by omega) heq
  refine ⟨rfl, rfl, rfl, rfl, fun i hi => ?_, fun k hk => ?_, rfl, ?_, rfl⟩
  · -- a place outside the packet is neither the first nor one of the remaining ones
    have hi' : i ∉ stretch n b (0 + 1) (p.ndesc - 1) := fun hc => by
      obtain ⟨j, hj, rfl⟩ := mem_stretch.mp hc
      exact hi (mem_stretch.mpr ⟨0 + 1 + j, by omega, by rw [zero_add]⟩)
    have hib : i ≠ b := fun hc => hi (mem_stretch.mpr ⟨0, hpos, by rw [hc, slot_zero hb]⟩)
    exact (emptied_of_not_mem _ hi').trans (update_of_ne hib ..)
  · by_cases hk0 : k = 0
    · subst hk0
      rw [slot_zero hb]
      dsimp only
      rw [emptied_of_not_mem _ hfirst, update_self]
      exact ⟨rfl, rfl⟩
    · have hmem : slot n b k ∈ stretch n b (0 + 1) (p.ndesc - 1) :=
        mem_stretch.mpr ⟨k - 1, by omega, congrArg (slot n b) (by omega)⟩
      dsimp only
      rw [emptied_of_mem _ hmem, update_of_ne (hne k (by omega) (by omega))]
      exact ⟨rfl, h.rest k (by omega) hk⟩
  · -- the mappings of the remaining buffers are those before the first one was emptied
    have hrest : contents (p.ndesc - 1) TxBuffer.mapping (fun j => update s.ring.buf b
          { s.ring.buf b with nextToWatch := none, len := 0 } (slot n b (0 + 1 + j))) =
        contents (p.ndesc - 1) TxBuffer.mapping fun j => s.ring.buf (slot n b (1 + j)) :=
      contents_congr fun j hj => by
        rw [zero_add, update_of_ne (hne _ (by omega) (by omega))]
    rw [h.maps_eq hb, ← Multiset.coe_add, Multiset.coe_reverse, filterMap_stretch, hrest,
      ← Multiset.cons_coe, Multiset.add_cons, Multiset.cons_add]

theorem cleanLoop_of_tail {fuel eop packets : ℕ} {c c' : Cursor} {budget : U32} {s' : TxState}
    (hwatch : (s.ring.buf c.pos).nextToWatch = some eop) (hdd : ¬ s.ring.dd eop = false)
    (htail : cleanTail eop s.ring.count (cleanHead s c.pos) c = some (s', c')) :
    cleanLoop (fuel + 1) s c budget packets =
      if budget - 1 = 0 then some (s', c'.advance s'.ring.count, packets + 1)
      else cleanLoop fuel s' (c'.advance s'.ring.count) (budget - 1) (packets + 1) := by
  rw [cleanLoop, hwatch]
  dsimp only
  rw [if_neg hdd, htail]

theorem cleanLoop_spec (hn : n < 2 ^ 16) {q : List Packet} {done fuel : ℕ} (budget : U32)
    (packets : ℕ) (hlaid : s.ring.Laid n b q done) (hb : b < n) (hcount : s.ring.count = n)
    (hq : totalDescs q < n) (hend : (s.ring.buf (slot n b (totalDescs q))).nextToWatch = none)
    (hfuel : q.length < fuel) : ∃ (k : ℕ) (s' : TxState), k ≤ q.length ∧ k ≤ done ∧
    cleanLoop fuel s (.at n b) budget packets =
        some (s', .at n (slot n b (totalDescs (q.take k))), packets + k) ∧
      (k < q.length → k < done → budget = BitVec.ofNat 32 k) ∧
      Cleaned n b (totalDescs (q.take k)) s s' ((q.take k).map Packet.skb : Multiset ℕ)
        ((q.take k).map Packet.maps).sum := by
  obtain ⟨fuel, rfl⟩ := exists_eq_succ_of_ne_zero (ne_of_gt (zero_lt_of_lt hfuel))
  -- on the packets in flight: a round of the loop takes the first one off
  induction q generalizing s b done fuel budget packets with
  | nil =>
    rw [totalDescs_nil, slot_zero hb] at hend
    refine ⟨0, s, zero_le _, zero_le _, ?_, fun h => absurd h (not_lt_zero _),
      Cleaned.refl n b s⟩
    rw [cleanLoop, take_nil, totalDescs_nil, slot_zero hb]
    simp only [Cursor.at, hend, add_zero]
  | cons p q ih =>
    obtain ⟨hp, hdd, hlaid⟩ := hlaid
    have hpos := hp.pos
    have h0 : 0 < n := by omega
    rw [totalDescs_cons] at hq hend
    rw [length_cons] at hfuel ⊢
    by_cases hdone : 0 < done
    · obtain ⟨s', htail, hclean⟩ := hp.clean hn hb (by omega) hcount
      have hcount' : s'.ring.count = n := hclean.count.trans hcount
      have hstep : cleanLoop (fuel + 1) s (.at n b) budget packets =
          if budget - 1 = 0 then some (s', .at n (slot n b p.ndesc), packets + 1)
          else cleanLoop fuel s' (.at n (slot n b p.ndesc)) (budget - 1) (packets + 1) := by
        have hdd' : ¬ s.ring.dd (slot n b (p.ndesc - 1)) = false := by
          rw [hdd, decide_eq_true hdone]
          exact Bool.true_eq_false.mp
        have hadv : (Cursor.at n (slot n b (p.ndesc - 1))).advance s'.ring.count =
            .at n (slot n b p.ndesc) := by
          rw [hcount', Cursor.advance_at hn (slot_lt h0 ..), next_slot h0, Nat.sub_add_cancel hpos]
        rw [cleanLoop_of_tail hp.watch hdd' htail, hadv]
      -- the budget is an unsigned number, and a limit of 0 wraps around
      by_cases hbudget : budget - 1 = 0
      · refine ⟨1, s', by omega, hdone, ?_, fun _ _ => sub_eq_zero.mp hbudget, ?_⟩
        · rw [hstep, if_pos hbudget]
          rfl
        · simpa using hclean
      · have hlaid' : s'.ring.Laid n (slot n b p.ndesc) q (done - 1) := by
          refine hlaid.congr (slot_lt h0 ..) (fun k hk => ?_) (fun k _ => by rw [hclean.dd])
          rw [slot_slot]
          exact hclean.buf_kept _ (not_mem_stretch (by omega) (by omega))
        have hend' :
            (s'.ring.buf (slot n (slot n b p.ndesc) (totalDescs q))).nextToWatch = none := by
          rw [slot_slot, hclean.buf_kept _ (not_mem_stretch (by omega) hq)]
          exact hend
        obtain ⟨fuel, rfl⟩ := exists_eq_succ_of_ne_zero (show fuel ≠ 0 by omega)
        obtain ⟨k, s'', hk, hkd, heq, hlimit, hrest⟩ := ih (budget - 1) (packets + 1) hlaid'
          (slot_lt h0 ..) hcount' (by omega) hend' fuel (by omega)
        refine ⟨k + 1, s'', by omega, by omega, ?_, fun h1 h2 => ?_, ?_⟩
        · rw [hstep, if_neg hbudget, heq, slot_slot, take_succ_cons, totalDescs_cons,
            add_right_comm, Nat.add_assoc packets]
        · exact (sub_eq_iff_eq_add.mp (hlimit (by omega) (by omega))).trans
            (BitVec.ofNat_add ..).symm
        · have hroom : p.ndesc + totalDescs (q.take k) ≤ n := by
            have : totalDescs (q.take k) + totalDescs (q.drop k) = totalDescs q := by
              rw [← totalDescs_append, take_append_drop]
            omega
          simpa using hclean.trans hrest hroom
    · refine ⟨0, s, zero_le _, zero_le _, ?_, fun _ h => absurd h hdone,
        Cleaned.refl n b s⟩
      -- the last descriptor of the packet is not done, and the loop stops
      have hdd' : s.ring.dd (slot n b (p.ndesc - 1)) = false := by rw [hdd, decide_eq_false hdone]
      rw [cleanLoop, take_zero, totalDescs_nil, slot_zero hb]
      simp only [Cursor.at, hp.watch, hdd', if_true, add_zero]

def TxState.setNextToClean (s : TxState) (i : ℕ) : TxState := { s with ring.nextToClean := i }

/-- **`ixgbe_clean_tx_irq`** always returns. It takes off all packets that are completed, or as many
as its limit, or none while the interface goes down. -/
theorem cleanTxIrq_spec {q : List Packet} {done : ℕ} (down : Bool) (workLimit : U32)
    (hn : s.ring.count < 2 ^ 16) (hlaid : s.ring.Laid s.ring.count s.ring.nextToClean q done)
    (hb : s.ring.nextToClean < s.ring.count) (hq : totalDescs q < s.ring.count)
    (hend : (s.ring.buf (slot s.ring.count s.ring.nextToClean (totalDescs q))).nextToWatch = none) :
    ∃ (k : ℕ) (s' : TxState), k ≤ q.length ∧ k ≤ done ∧
      cleanTxIrq s down workLimit =
        some (s'.setNextToClean (slot s.ring.count s.ring.nextToClean (totalDescs (q.take k))), k) ∧
      (down = false → k < q.length → k < done → workLimit = BitVec.ofNat 32 k) ∧
      Cleaned s.ring.count s.ring.nextToClean (totalDescs (q.take k)) s s'
        ((q.take k).map Packet.skb : Multiset ℕ) ((q.take k).map Packet.maps).sum := by
  cases down with
  | true =>
    refine ⟨0, s, zero_le _, zero_le _, ?_, fun h => absurd h.symm Bool.false_ne_true,
      Cleaned.refl ..⟩
    rw [take_zero, totalDescs_nil, slot_zero hb]
    rfl
  | false =>
    obtain ⟨k, s', hk, hkd, heq, hlimit, hclean⟩ := cleanLoop_spec hn workLimit 0 hlaid hb rfl hq
      hend
      (hlaid.length_le.trans_lt hq)
    refine ⟨k, s', hk, hkd, ?_, fun _ => hlimit, hclean⟩
    have hplace := Cursor.at_index hn
      (slot_lt (zero_lt_of_lt hb) s.ring.nextToClean (totalDescs (q.take k)))
    change (cleanLoop s.ring.count s (.at s.ring.count s.ring.nextToClean) workLimit 0).map _ = _
    rw [heq, Option.map_some, TxState.setNextToClean]
    dsimp only
    rw [hclean.count, hplace, zero_add]

end

end Ixgbe
