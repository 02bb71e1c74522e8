import Ixgbe.Library.EventRun
import Ixgbe.Tx.Clean
import Ixgbe.Tx.Map

/-! # Who owns what on the transmit ring

Runs of the transmit path. The packets have to be countable: descriptors are counted in 16 bits. -/

namespace Ixgbe

open Ring List Nat

structure TxRun where
  st : TxState
  /-- Taken from the stack and given back without being sent. -/
  refused : List Packet
  /-- Put on the ring, the first one first. -/
  sent : List Packet
  head : ℕ
  completed : ℕ
  reaped : ℕ

def TxRun.inFlight (r : TxRun) : List Packet := r.sent.drop r.reaped

inductive TxEvent
  | xmit (skb : Skb) (offload : Offload) (ok : ℕ → Bool)
  | complete
  | clean (down : Bool) (workLimit : U32)

def TxLog.newMaps (log old : TxLog) : Multiset (ℕ × ℕ) :=
  (log.mapped : Multiset (ℕ × ℕ)) - old.mapped

/-- The status of the last descriptor of the packet it is at. -/
def TxRun.writeBack (r : TxRun) (p : Packet) : TxRun :=
  let n := r.st.ring.count
  { r with
    st.ring.dd := Function.update r.st.ring.dd (slot n r.head (p.ndesc - 1)) true
    head := slot n r.head p.ndesc
    completed := r.completed + 1 }

def TxRun.reap (r : TxRun) (st : TxState) (k : ℕ) : TxRun :=
  { r with st := st, reaped := r.reaped + k }

/-- `none` when a loop of the driver does not end. -/
def TxRun.step (r : TxRun) : TxEvent → Option TxRun
  | .xmit skb offload ok =>
    match xmitFrameRing r.st skb offload ok with
    | none => none
    | some (.busy, st) => some { r with st := st }
    | some (.sent, st) =>
      let p := ⟨skb.id, offload.descs + skb.dataDescs, st.log.newMaps r.st.log⟩
      some { r with st := st, sent := r.sent ++ [p] }
    | some (_, st) =>
      some { r with st := st, refused := ⟨skb.id, 0, st.log.newMaps r.st.log⟩ :: r.refused }
  | .complete =>
    match r.sent[r.completed]? with
    | none => some r
    | some p => some (r.writeBack p)
  | .clean down workLimit => (cleanTxIrq r.st down workLimit).map fun (st, k) => r.reap st k

def txStep (o : Option TxRun) (e : TxEvent) : Option TxRun := o.bind fun r => r.step e

def Ended (P : TxRun → Prop) (o : Option TxRun) : Prop := ∃ r, o = some r ∧ P r

def TxEvent.Legal : TxEvent → Prop
  | .xmit skb _ _ => skb.WellFormed ∧ skb.Countable
  | _ => True

structure TxRun.Start (r : TxRun) : Prop where
  count_lt : r.st.ring.count < 2 ^ 16
  clean_lt : r.st.ring.nextToClean < r.st.ring.count
  use : r.st.ring.nextToUse = r.st.ring.nextToClean
  head : r.head = r.st.ring.nextToClean
  free : ∀ i < r.st.ring.count, (r.st.ring.buf i).Free
  log : r.st.log = ⟨[], [], []⟩
  refused : r.refused = []
  sent : r.sent = []
  completed : r.completed = 0
  reaped : r.reaped = 0

def packetSkbs (q : List Packet) : Multiset ℕ := q.map Packet.skb

def packetMaps (q : List Packet) : Multiset (ℕ × ℕ) := (q.map Packet.maps).sum

theorem packetSkbs_append (q q' : List Packet) :
    packetSkbs (q ++ q') = packetSkbs q + packetSkbs q' := by
  simp [packetSkbs]

theorem packetMaps_append (q q' : List Packet) :
    packetMaps (q ++ q') = packetMaps q + packetMaps q' := by
  simp [packetMaps]

structure TxRun.Owned (r : TxRun) : Prop where
  use_lt : r.st.ring.nextToUse < r.st.ring.count
  clean_lt : r.st.ring.nextToClean < r.st.ring.count
  /-- The descriptors in use are those of the packets on the ring. -/
  range : dist r.st.ring.count r.st.ring.nextToClean r.st.ring.nextToUse = totalDescs r.inFlight
  range_le : totalDescs r.inFlight ≤ r.st.ring.count - 1
  outside : ∀ i < r.st.ring.count, ¬ dist r.st.ring.count r.st.ring.nextToClean i <
    dist r.st.ring.count r.st.ring.nextToClean r.st.ring.nextToUse → (r.st.ring.buf i).Free
  /-- A packet is not taken off before its completion. -/
  reaped_le : r.reaped ≤ r.completed
  completed_le : r.completed ≤ r.sent.length
  /-- Packets are given back once each. -/
  freed : (r.st.log.freed : Multiset ℕ) =
    packetSkbs r.refused + packetSkbs (r.sent.take r.reaped)
  /-- They are different, belong to the packets, and are removed once. -/
  nodup : r.st.log.mapped.Nodup
  mapped : (r.st.log.mapped : Multiset (ℕ × ℕ)) = packetMaps r.refused + packetMaps r.sent
  unmapped : (r.st.log.unmapped : Multiset (ℕ × ℕ)) =
    packetMaps r.refused + packetMaps (r.sent.take r.reaped)
  /-- The interrupt's work reaches all that is completed or its limit. -/
  reapable : ∀ workLimit : U32, ∃ (st : TxState) (k : ℕ),
    cleanTxIrq r.st false workLimit = some (st, k) ∧
      (r.reaped + k = r.completed ∨ workLimit = BitVec.ofNat 32 k)

structure TxInv (r : TxRun) : Prop where
  count_lt : r.st.ring.count < 2 ^ 16
  clean_lt : r.st.ring.nextToClean < r.st.ring.count
  laid : r.st.ring.Laid r.st.ring.count r.st.ring.nextToClean r.inFlight (r.completed - r.reaped)
  room : totalDescs r.inFlight < r.st.ring.count
  use : r.st.ring.nextToUse =
    slot r.st.ring.count r.st.ring.nextToClean (totalDescs r.inFlight)
  free : ∀ k, totalDescs r.inFlight ≤ k → k < r.st.ring.count →
    (r.st.ring.buf (slot r.st.ring.count r.st.ring.nextToClean k)).Free
  reaped_le : r.reaped ≤ r.completed
  completed_le : r.completed ≤ r.sent.length
  head : r.head = slot r.st.ring.count r.st.ring.nextToClean
    (totalDescs (r.inFlight.take (r.completed - r.reaped)))
  numbered : Numbered r.st.log.mapped
  freed : (r.st.log.freed : Multiset ℕ) =
    packetSkbs r.refused + packetSkbs (r.sent.take r.reaped)
  mapped : (r.st.log.mapped : Multiset (ℕ × ℕ)) = packetMaps r.refused + packetMaps r.sent
  unmapped : (r.st.log.unmapped : Multiset (ℕ × ℕ)) =
    packetMaps r.refused + packetMaps (r.sent.take r.reaped)

section

variable {r : TxRun}

theorem TxRun.Start.inv (h : r.Start) : TxInv r := by
  have hq : r.inFlight = [] := by rw [TxRun.inFlight, h.sent, drop_nil]
  have h0 : 0 < r.st.ring.count := zero_lt_of_lt h.clean_lt
  refine ⟨h.count_lt, h.clean_lt, ?_, ?_, ?_, fun k _ hk => h.free _ (slot_lt h0 ..), ?_, ?_, ?_,
    ?_, ?_, ?_, ?_⟩
  · rw [hq]
    trivial
  · rw [hq]
    exact h0
  · rw [hq, totalDescs_nil, slot_zero h.clean_lt]
    exact h.use
  · rw [h.reaped]
    exact zero_le _
  · rw [h.completed]
    exact zero_le _
  · rw [hq, take_nil, totalDescs_nil, slot_zero h.clean_lt]
    exact h.head
  · rw [h.log]
    rfl
  · rw [h.log, h.refused, h.sent, take_nil]
    rfl
  · rw [h.log, h.refused, h.sent]
    rfl
  · rw [h.log, h.refused, h.sent, take_nil]
    rfl

theorem length_inFlight (r : TxRun) : r.inFlight.length = r.sent.length - r.reaped :=
  length_drop ..

theorem TxInv.cleans (h : TxInv r) (down : Bool) (workLimit : U32) :
    ∃ (k : ℕ) (s' : TxState), k ≤ r.inFlight.length ∧ k ≤ r.completed - r.reaped ∧
      cleanTxIrq r.st down workLimit = some (s'.setNextToClean (slot r.st.ring.count
        r.st.ring.nextToClean (totalDescs (r.inFlight.take k))), k) ∧
      (down = false → k < r.completed - r.reaped → workLimit = BitVec.ofNat 32 k) ∧
      Cleaned r.st.ring.count r.st.ring.nextToClean (totalDescs (r.inFlight.take k)) r.st s'
        (packetSkbs (r.inFlight.take k)) (packetMaps (r.inFlight.take k)) := by
  obtain ⟨k, s', hk, hkd, heq, hlimit, hclean⟩ := cleanTxIrq_spec down workLimit h.count_lt h.laid
    h.clean_lt h.room (h.free _ le_rfl h.room).2
  refine ⟨k, s', hk, hkd, heq, fun hdown hlt => hlimit hdown ?_ hlt, hclean⟩
  have := h.completed_le
  rw [length_inFlight]
  omega

theorem TxInv.owned (h : TxInv r) : r.Owned := by
  have h0 : 0 < r.st.ring.count := zero_lt_of_lt h.clean_lt
  have hrange : dist r.st.ring.count r.st.ring.nextToClean r.st.ring.nextToUse =
      totalDescs r.inFlight := by
    rw [h.use]
    exact dist_slot h.clean_lt h.room
  refine ⟨?_, h.clean_lt, hrange, le_sub_one_of_lt h.room, fun i hi hout => ?_, h.reaped_le,
    h.completed_le, h.freed, h.numbered.nodup, h.mapped, h.unmapped, fun workLimit => ?_⟩
  · rw [h.use]
    exact slot_lt h0 ..
  · -- a descriptor outside the range in use is behind the packets
    rw [hrange] at hout
    have := h.free _ (not_lt.mp hout) (dist_lt h0 ..)
    rwa [slot_dist h.clean_lt hi] at this
  · -- the interrupt's work takes off all that is completed, or stops at its limit
    obtain ⟨k, s', -, hkd, heq, hlimit, -⟩ := h.cleans false workLimit
    refine ⟨_, k, heq, ?_⟩
    have := h.reaped_le
    by_cases hk : k < r.completed - r.reaped
    · exact .inr (hlimit rfl hk)
    · exact .inl (by omega)

variable {m : ℕ} {s' : TxState} {new : Multiset (ℕ × ℕ)}

theorem Touches.newMaps {n b : ℕ} {s : TxState}
    (h : Touches n b m s s' new) : s'.log.newMaps s.log = new := by
  rw [TxLog.newMaps, h.mapped]
  exact add_tsub_cancel_right new _

theorem TxInv.laid_of_touches (h : TxInv r) (hm : totalDescs r.inFlight + m < r.st.ring.count)
    (ht : Touches r.st.ring.count r.st.ring.nextToUse m r.st s' new) :
    s'.ring.Laid r.st.ring.count r.st.ring.nextToClean r.inFlight (r.completed - r.reaped) := by
  have hbefore : ∀ k < totalDescs r.inFlight,
      slot r.st.ring.count r.st.ring.nextToClean k ∉
        stretch r.st.ring.count r.st.ring.nextToUse 0 m := fun k hk => by
    rw [h.use]
    exact not_mem_stretch_after hk hm.le
  exact h.laid.congr h.clean_lt (fun k hk => ht.buf_kept _ (hbefore k hk))
    fun k hk => ht.dd_kept _ (hbefore k hk)

theorem TxInv.free_of_touches (h : TxInv r)
    (ht : Touches r.st.ring.count r.st.ring.nextToUse m r.st s' new) {k : ℕ}
    (hk : totalDescs r.inFlight + m ≤ k) (hkn : k < r.st.ring.count) :
    (s'.ring.buf (slot r.st.ring.count r.st.ring.nextToClean k)).Free := by
  rw [ht.buf_kept]
  · exact h.free k (by omega) hkn
  · rw [h.use]
    have hbehind := not_mem_stretch (b := slot r.st.ring.count r.st.ring.nextToClean
      (totalDescs r.inFlight)) (show m ≤ k - totalDescs r.inFlight by omega)
      (show k - totalDescs r.inFlight < r.st.ring.count by omega)
    rwa [slot_slot, Nat.add_sub_cancel' (by omega)] at hbehind

theorem TxInv.nothingSent (h : TxInv r) {skb : ℕ} (hm : totalDescs r.inFlight + m < r.st.ring.count)
    (hs : NothingSent r.st.ring.count r.st.ring.nextToUse m r.st s' skb new) :
    TxInv { r with st := s', refused := ⟨skb, 0, s'.log.newMaps r.st.log⟩ :: r.refused } := by
  have hcount := hs.count
  have hclean := hs.nextToClean
  rw [hs.toTouches.newMaps]
  refine ⟨?_, ?_, ?_, ?_, ?_, fun k hk hkn => ?_, h.reaped_le, h.completed_le, ?_, hs.numbered,
    ?_, ?_, ?_⟩
  · rw [hcount]
    exact h.count_lt
  · rw [hcount, hclean]
    exact h.clean_lt
  · rw [hcount, hclean]
    exact h.laid_of_touches hm hs.toTouches
  · rw [hcount]
    exact h.room
  · rw [hcount, hclean]
    exact hs.nextToUse.trans h.use
  · rw [hcount] at hkn ⊢
    rw [hclean]
    have hk : totalDescs r.inFlight ≤ k := hk
    -- a place of the stretch was freed again, one behind it is as before
    by_cases hkm : k < totalDescs r.inFlight + m
    · have hplace := hs.free (k - totalDescs r.inFlight) (by omega)
      rwa [h.use, slot_slot, Nat.add_sub_cancel' hk] at hplace
    · exact h.free_of_touches hs.toTouches (by omega) hkn
  · rw [hcount, hclean]
    exact h.head
  · rw [hs.freed, ← Multiset.cons_coe, h.freed, ← Multiset.cons_add]
    rfl
  · rw [hs.mapped, h.mapped, ← add_assoc]
    rfl
  · rw [hs.unmapped, h.unmapped, ← add_assoc]
    rfl

theorem TxInv.packetSent (h : TxInv r) {skb : ℕ} (hm : totalDescs r.inFlight + m < r.st.ring.count)
    (hs : PacketSent r.st.ring.count r.st.ring.nextToUse r.st s' ⟨skb, m, new⟩) :
    TxInv { r with st := s', sent := r.sent ++ [⟨skb, m, s'.log.newMaps r.st.log⟩] } := by
  have hcount := hs.count
  have hclean := hs.nextToClean
  have hreaped : r.reaped ≤ r.sent.length := h.reaped_le.trans h.completed_le
  have hdone : r.completed - r.reaped ≤ r.inFlight.length := by
    have := h.completed_le
    rw [length_inFlight]
    omega
  have hq : TxRun.inFlight { r with st := s', sent := r.sent ++ [⟨skb, m, new⟩] } =
      r.inFlight ++ [⟨skb, m, new⟩] := drop_append_of_le_length hreaped
  have htotal : totalDescs (r.inFlight ++ [⟨skb, m, new⟩]) = totalDescs r.inFlight + m := by simp
  have hpacket := hs.packet
  rw [hs.toTouches.newMaps]
  refine ⟨?_, ?_, ?_, ?_, ?_, fun k hk hkn => ?_, h.reaped_le, ?_, ?_, hs.numbered, ?_, ?_, ?_⟩
  · rw [hcount]
    exact h.count_lt
  · rw [hcount, hclean]
    exact h.clean_lt
  · rw [hq, hcount, hclean]
    -- the new packet lies behind the others, and is not completed
    refine (h.laid_of_touches hm hs.toTouches).append h.clean_lt (h.use ▸ hpacket) ?_
    rw [← slot_slot, ← h.use, decide_eq_false (not_lt.mpr hdone)]
    exact hs.dd
  · rw [hq, htotal, hcount]
    exact hm
  · rw [hq, htotal, hcount, hclean, ← slot_slot, ← h.use]
    exact hs.nextToUse
  · rw [hcount] at hkn ⊢
    rw [hq, htotal] at hk
    rw [hclean]
    exact h.free_of_touches hs.toTouches hk hkn
  · rw [length_append]
    exact le_add_right_of_le h.completed_le
  · rw [hq, hcount, hclean, take_append_of_le_length hdone]
    exact h.head
  · rw [hs.freed, take_append_of_le_length hreaped]
    exact h.freed
  · have hmaps : packetMaps [⟨skb, m, new⟩] = new := by simp [packetMaps]
    rw [hs.mapped, h.mapped, packetMaps_append, hmaps, add_comm, add_assoc]
  · rw [hs.unmapped, take_append_of_le_length hreaped]
    exact h.unmapped

theorem TxInv.xmit (h : TxInv r) {skb : Skb} (hskb : skb.WellFormed) (hfit : skb.Countable)
    (offload : Offload) (ok : ℕ → Bool) :
    ∃ r', r.step (.xmit skb offload ok) = some r' ∧ TxInv r' := by
  rcases xmitFrameRing_spec offload ok hskb hfit h.count_lt h.clean_lt h.room h.use h.free
    h.numbered with heq | ⟨m, new, s', hm, ⟨heq, rfl, hs⟩ | ⟨res, hres, heq, hs⟩⟩
  · refine ⟨r, ?_, h⟩
    rw [TxRun.step, heq]
  · refine ⟨_, ?_, h.packetSent hm hs⟩
    rw [TxRun.step, heq]
  · refine ⟨_, ?_, h.nothingSent hm hs⟩
    rcases hres with rfl | rfl
    · rw [TxRun.step, heq]
    · rw [TxRun.step, heq]

theorem TxInv.complete (h : TxInv r) : ∃ r', r.step .complete = some r' ∧ TxInv r' := by
  cases hp : r.sent[r.completed]? with
  | none =>
    refine ⟨r, ?_, h⟩
    rw [TxRun.step, hp]
  | some p =>
    have hle := h.reaped_le
    -- the packet that is completed is the next one of those on the ring
    have hnext : r.inFlight[r.completed - r.reaped]? = some p := by
      rw [TxRun.inFlight, List.getElem?_drop, Nat.add_sub_cancel' hle]
      exact hp
    have hsucc : r.completed + 1 - r.reaped = r.completed - r.reaped + 1 := by omega
    have hlaid := h.laid.complete h.clean_lt h.room.le hnext
    rw [← slot_slot, ← h.head, ← hsucc] at hlaid
    refine ⟨r.writeBack p, by rw [TxRun.step, hp], { h with
      laid := hlaid
      reaped_le := le_succ_of_le hle
      completed_le := (List.getElem?_eq_some_iff.mp hp).1
      head := ?_ }⟩
    change slot r.st.ring.count r.head p.ndesc = slot r.st.ring.count r.st.ring.nextToClean
      (totalDescs (r.inFlight.take (r.completed + 1 - r.reaped)))
    rw [hsucc, take_add_one, hnext, h.head, slot_slot, totalDescs_append]
    simp

theorem TxInv.clean (h : TxInv r) (down : Bool) (workLimit : U32) :
    ∃ r', r.step (.clean down workLimit) = some r' ∧ TxInv r' := by
  obtain ⟨k, s', hk, hkd, heq, -, hclean⟩ := h.cleans down workLimit
  have h0 : 0 < r.st.ring.count := zero_lt_of_lt h.clean_lt
  have hcount := hclean.count
  have hsplit : totalDescs (r.inFlight.take k) + totalDescs (r.inFlight.drop k) =
      totalDescs r.inFlight := by
    rw [← totalDescs_append, take_append_drop]
  have hroom := h.room
  have hle := h.reaped_le
  generalize hb : slot r.st.ring.count r.st.ring.nextToClean (totalDescs (r.inFlight.take k)) = b
    at heq
  refine ⟨r.reap (s'.setNextToClean b) k, by rw [TxRun.step, heq]; rfl, ?_⟩
  have hq : (r.reap (s'.setNextToClean b) k).inFlight = r.inFlight.drop k := drop_drop.symm
  have htaken : r.sent.take (r.reaped + k) = r.sent.take r.reaped ++ r.inFlight.take k :=
    take_add ..
  have hdone : r.completed - (r.reaped + k) = r.completed - r.reaped - k := by omega
  -- places counted from the new start
  have hplace : ∀ j, slot r.st.ring.count b j = slot r.st.ring.count r.st.ring.nextToClean
      (totalDescs (r.inFlight.take k) + j) := fun j => by rw [← hb, slot_slot]
  refine ⟨?_, ?_, ?_, ?_, ?_, fun j hj hjn => ?_, ?_, h.completed_le, ?_, ?_, ?_, ?_, ?_⟩
  · exact hcount ▸ h.count_lt
  · exact hb ▸ hcount ▸ slot_lt h0 ..
  · change (s'.setNextToClean b).ring.Laid s'.ring.count b _ (r.completed - (r.reaped + k))
    rw [hq, hcount, hdone]
    -- the packets that stay, counted from the new start, are not touched
    have hrest := h.laid.drop h.clean_lt k
    rw [hb] at hrest
    refine hrest.congr (hb ▸ slot_lt h0 ..) (fun j hj => ?_) fun j _ => congrFun hclean.dd _
    rw [hplace]
    exact hclean.buf_kept _ (not_mem_stretch (by omega) (by omega))
  · rw [hq]
    change _ < s'.ring.count
    omega
  · rw [hq]
    change s'.ring.nextToUse = slot s'.ring.count b _
    rw [hclean.nextToUse, hcount, hplace, hsplit]
    exact h.use
  · rw [hq] at hj
    have hjn : j < r.st.ring.count := hcount ▸ hjn
    change (s'.ring.buf (slot s'.ring.count b j)).Free
    rw [hcount, hplace]
    -- a place is behind the packets still on the ring, or was just freed
    by_cases hwrap : totalDescs (r.inFlight.take k) + j < r.st.ring.count
    · rw [hclean.buf_kept _ (not_mem_stretch (by omega) hwrap)]
      exact h.free _ (by omega) hwrap
    · have := hclean.free (totalDescs (r.inFlight.take k) + j - r.st.ring.count) (by omega)
      rwa [← slot_add_self, Nat.sub_add_cancel (by omega)] at this
  · change r.reaped + k ≤ r.completed
    omega
  · rw [hq]
    change r.head = slot s'.ring.count b
      (totalDescs ((r.inFlight.drop k).take (r.completed - (r.reaped + k))))
    rw [hcount, hplace, ← totalDescs_append, hdone, ← take_add, Nat.add_sub_cancel' hkd]
    exact h.head
  · exact hclean.mapped ▸ h.numbered
  · change (s'.log.freed : Multiset ℕ) =
      packetSkbs r.refused + packetSkbs (r.sent.take (r.reaped + k))
    rw [hclean.freed, h.freed, htaken, packetSkbs_append, add_comm, add_assoc]
  · change (s'.log.mapped : Multiset (ℕ × ℕ)) = _
    rw [hclean.mapped]
    exact h.mapped
  · change (s'.log.unmapped : Multiset (ℕ × ℕ)) =
      packetMaps r.refused + packetMaps (r.sent.take (r.reaped + k))
    rw [hclean.unmapped, h.unmapped, htaken, packetMaps_append, add_comm, add_assoc]

theorem TxInv.step (h : TxInv r) {e : TxEvent} (he : e.Legal) :
    ∃ r', r.step e = some r' ∧ TxInv r' :=
  match e, he with
  | .xmit _ offload ok, he => h.xmit he.1 he.2 offload ok
  | .complete, _ => h.complete
  | .clean down workLimit, _ => h.clean down workLimit

theorem TxRun.Start.after {P : TxRun → Prop} (hP : ∀ r, TxInv r → P r) (hr : r.Start)
    {es : List TxEvent} (hes : ∀ e ∈ es, e.Legal) :
    EventRun.After txStep (Ended P) (some r) es := by
  have hstep : ∀ (o : Option TxRun) (e : TxEvent), Ended TxInv o → e.Legal →
      Ended TxInv (txStep o e) := by
    rintro _ e ⟨r', rfl, h⟩ he
    exact h.step he
  have hended : ∀ o, Ended TxInv o → Ended P o := by
    rintro _ ⟨r', rfl, h⟩
    exact ⟨r', rfl, hP r' h⟩
  exact EventRun.after_of_inv hstep hended ⟨r, rfl, hr.inv⟩ (EventRun.along_of_forall _ _ hes)

/-- **The transmit ring along every run**: after every step the ring belongs to the packets sent and
not yet taken off. -/
theorem tx_ring_owned (hr : r.Start) {es : List TxEvent} (hes : ∀ e ∈ es, e.Legal) :
    EventRun.After txStep (Ended TxRun.Owned) (some r) es :=
  hr.after (fun _ h => h.owned) hes

end

def freshRun : TxRun where
  st :=
    { ring := ⟨64, 0, 0, fun _ => ⟨none, none, 0, 0⟩, fun _ => false⟩
      log := ⟨[], [], []⟩ }
  refused := []
  sent := []
  head := 0
  completed := 0
  reaped := 0

theorem freshRun_start : freshRun.Start :=
  ⟨by decide, by decide, rfl, rfl, fun _ _ => ⟨rfl, rfl⟩, rfl, rfl, rfl, rfl, rfl⟩

theorem tx_ring_owned_two_packets : EventRun.After txStep (Ended TxRun.Owned) (some freshRun)
    [.xmit ⟨1, 100, [20000]⟩ .context fun _ => true, .complete, .clean false 256,
      .xmit ⟨2, 100, [200]⟩ .plain fun k => k == 0] := by
  refine tx_ring_owned freshRun_start fun e he => ?_
  simp only [List.mem_cons, List.not_mem_nil, or_false] at he
  rcases he with rfl | rfl | rfl | rfl
  · exact ⟨⟨by decide, by decide⟩, by decide⟩
  · trivial
  · trivial
  · exact ⟨⟨by decide, by decide⟩, by decide⟩

/-- It needs 65536 descriptors, which is 0 in 16 bits. -/
def gigabyteSkb : Skb := ⟨1, 2 ^ 30, []⟩

theorem xmit_gigabyte : ∃ st : TxState,
    xmitFrameRing freshRun.st gigabyteSkb .plain (fun _ => true) = some (.sent, st) ∧
      st.ring.count = 64 ∧ st.ring.nextToClean = 0 ∧ st.ring.nextToUse = 0 := by
  have hstop : ¬ freshRun.st.ring.maybeStopTx (gigabyteSkb.useCount + 3) := by decide
  -- the state with the packet noted, and the one in which its descriptors are counted off
  let s0 : TxState := freshRun.st.modifyBuf 0 fun b => { b with skb := some gigabyteSkb.id }
  let s1 : TxState := (s0.clearDd 0).recordMap 0 gigabyteSkb.headlen
  obtain ⟨dd, hsplit, -, -⟩ := txSplit_eq (n := 64) (b := 0) (by decide)
    (show 0 < gigabyteSkb.headlen by decide) s1 rfl 0
  have hlast : slot 64 0 (0 + descs gigabyteSkb.headlen - 1) = 63 := by decide
  have hzero : slot 64 0 0 = 0 := by decide
  have hloop : txMapLoop (fun _ => true) gigabyteSkb.frags (s0.clearDd s0.ring.nextToUse)
      s0.ring.nextToUse 0 gigabyteSkb.headlen 0 = (true, 63, { s1 with ring.dd := dd }) := by
    exact congrArg (Prod.mk true) hsplit
  refine ⟨TxState.handOver { s1 with ring.dd := dd } 0 63, ?_, rfl, rfl, rfl⟩
  rw [xmitFrameRing, if_neg hstop]
  exact congrArg (Option.map xmitResult) (txMap_of_loop hloop)

def emptyHeadSkb : Skb := ⟨1, 0, [100]⟩

theorem xmit_emptyHead : ∃ st : TxState,
    xmitFrameRing freshRun.st emptyHeadSkb .plain (fun k => k == 0) = some (.failed, st) ∧
      st.log.mapped = [(0, 0)] ∧ st.log.unmapped = [] := by
  have hstop : ¬ freshRun.st.ring.maybeStopTx (emptyHeadSkb.useCount + 3) := by decide
  have hsplit : ∀ s : TxState, txSplit s 0 0 = (0, s) := fun s => by
    rw [txSplit]
    exact if_neg (by decide)
  let s0 : TxState := freshRun.st.modifyBuf 0 fun b => { b with skb := some emptyHeadSkb.id }
  let s1 : TxState := ((s0.clearDd 0).recordMap 0 0).clearDd 1
  have hloop : txMapLoop (fun k => k == 0) [100] (s0.clearDd 0) 0 0 0 0 = (false, 1, s1) := by
    rw [txMapLoop, show ((0 : ℕ) == 0) = true from rfl, dmaMap_true]
    dsimp only
    rw [hsplit, if_neg (by decide), txMapLoop]
    rfl
  have hmap : txMap s0 0 emptyHeadSkb (fun k => k == 0) =
      (txUnwind 0 64 s1 1).map fun s => (false, s.giveUp 0) := by
    have hloop' : txMapLoop (fun k => k == 0) emptyHeadSkb.frags (s0.clearDd s0.ring.nextToUse)
        s0.ring.nextToUse 0 emptyHeadSkb.headlen 0 = (false, 1, s1) := hloop
    rw [txMap, hloop']
    rfl
  refine ⟨((s1.unmapPage 1).unmapPage 0).giveUp 0, ?_, rfl, rfl⟩
  rw [xmitFrameRing, if_neg hstop]
  exact congrArg (Option.map xmitResult) hmap

/-- **Neither condition can go**: the count wraps around, and an empty linear part can stay mapped.
-/
theorem tx_ring_not_owned :
    (¬ EventRun.After txStep (Ended TxRun.Owned) (some freshRun)
      [.xmit gigabyteSkb .plain fun _ => true]) ∧
    ¬ EventRun.After txStep (Ended TxRun.Owned) (some freshRun)
      [.xmit emptyHeadSkb .plain fun k => k == 0] := by
  refine ⟨fun h => ?_, fun h => ?_⟩
  · obtain ⟨st, hxmit, hcount, hclean, huse⟩ := xmit_gigabyte
    obtain ⟨r, hr, howned⟩ := h.1
    have hstep : txStep (some freshRun) (.xmit gigabyteSkb .plain fun _ => true) =
        some { freshRun with
          st := st
          sent := [⟨1, 0 + gigabyteSkb.dataDescs, st.log.newMaps freshRun.st.log⟩] } := by
      rw [txStep, Option.bind_some, TxRun.step, hxmit]
      rfl
    obtain rfl := Option.some.inj (hstep.symm.trans hr)
    have hrange := howned.range
    rw [hcount, hclean, huse] at hrange
    change dist 64 0 0 = 0 + gigabyteSkb.dataDescs + 0 at hrange
    exact absurd hrange (by decide)
  · obtain ⟨st, hxmit, hmapped, hunmapped⟩ := xmit_emptyHead
    obtain ⟨r, hr, howned⟩ := h.1
    have hstep : txStep (some freshRun) (.xmit emptyHeadSkb .plain fun k => k == 0) =
        some { freshRun with
          st := st
          refused := [⟨1, 0, st.log.newMaps freshRun.st.log⟩] } := by
      rw [txStep, Option.bind_some, TxRun.step, hxmit]
      rfl
    obtain rfl := Option.some.inj (hstep.symm.trans hr)
    have hmaps : (st.log.mapped : Multiset (ℕ × ℕ)) = st.log.unmapped :=
      howned.mapped.trans howned.unmapped.symm
    rw [hmapped, hunmapped] at hmaps
    exact absurd hmaps (by decide)

end Ixgbe
