import Ixgbe.Library.IndexedTable
import Ixgbe.Tx.Ring

/-! # Walks along the transmit ring

Each loop of the transmit path is brought to a closed form: which buffers were unmapped, and where
the walk ended. -/

namespace Ixgbe

open Ring IndexedTable Nat

def TxBuffer.mapping (b : TxBuffer) : Option (ℕ × ℕ) :=
  if b.len = 0 then none else some (b.dma, b.len)

def TxBuffer.Free (b : TxBuffer) : Prop := b.len = 0 ∧ b.nextToWatch = none

def emptied (buf : ℕ → TxBuffer) (l : List ℕ) : ℕ → TxBuffer := fun j =>
  if j ∈ l then { buf j with len := 0 } else buf j

section

variable (buf : ℕ → TxBuffer)

theorem emptied_of_mem {l : List ℕ} {i : ℕ} (hi : i ∈ l) :
    emptied buf l i = { buf i with len := 0 } := if_pos hi

theorem emptied_of_not_mem {l : List ℕ} {i : ℕ} (hi : i ∉ l) :
    emptied buf l i = buf i := if_neg hi

theorem emptied_skb (l : List ℕ) (i : ℕ) : (emptied buf l i).skb = (buf i).skb := by
  rw [emptied]
  split <;> rfl

theorem emptied_watch (l : List ℕ) (i : ℕ) :
    (emptied buf l i).nextToWatch = (buf i).nextToWatch := by
  rw [emptied]
  split <;> rfl

end

theorem unmapPage_eq (s : TxState) (i : ℕ) : s.unmapPage i =
    { ring := { s.ring with
        buf := Function.update s.ring.buf i { s.ring.buf i with len := 0 } }
      log := { s.log with
        unmapped := (s.ring.buf i).mapping.toList ++ s.log.unmapped } } := by
  rw [TxState.unmapPage, TxBuffer.mapping]
  by_cases h : (s.ring.buf i).len = 0
  · rw [if_pos h, if_neg (not_not.mpr h)]
    rfl
  · rw [if_neg h, if_pos h]
    rfl

theorem foldl_unmapPage (l : List ℕ) (hl : l.Nodup) (s : TxState) :
    l.foldl TxState.unmapPage s =
      { ring := { s.ring with buf := emptied s.ring.buf l }
        log := { s.log with
          unmapped :=
            (l.filterMap fun i => (s.ring.buf i).mapping).reverse ++ s.log.unmapped } } := by
  induction l generalizing s with
  | nil =>
    have hbuf : emptied s.ring.buf [] = s.ring.buf := by
      funext j
      simp [emptied]
    rfl
  | cons i l ih =>
    obtain ⟨hi, hl⟩ := List.nodup_cons.mp hl
    rw [List.foldl_cons, ih hl, unmapPage_eq]
    -- `i` is not unmapped again, since the places are different
    have hbuf : emptied (Function.update s.ring.buf i { s.ring.buf i with len := 0 }) l =
        emptied s.ring.buf (i :: l) := by
      funext j
      by_cases hj : j = i
      · subst hj
        simp [emptied, hi]
      · simp [emptied, hj]
    have hmaps : (l.filterMap fun j => (Function.update s.ring.buf i
        { s.ring.buf i with len := 0 } j).mapping) =
          l.filterMap fun j => (s.ring.buf j).mapping := by
      refine List.filterMap_congr fun j hj => ?_
      have hne : j ≠ i := fun hc => hi (hc ▸ hj)
      rw [Function.update_of_ne hne]
    rw [hbuf, hmaps, List.filterMap_cons]
    cases (s.ring.buf i).mapping <;> simp

theorem filterMap_stretch (n b a m : ℕ) (buf : ℕ → TxBuffer) :
    ((stretch n b a m).filterMap fun i => (buf i).mapping : Multiset (ℕ × ℕ)) =
      contents m TxBuffer.mapping fun j => buf (slot n b (a + j)) := by
  rw [contents_eq_coe, stretch, List.filterMap_map]
  rfl

theorem txUnwind_eq {n b : ℕ} (hn : 0 < n) (hb : b < n) (s : TxState) (hcount : s.ring.count = n)
    {d fuel : ℕ} (hd : d < n) (hfuel : d < fuel) :
    txUnwind b fuel s (slot n b d) =
      some ((stretch n b 0 (d + 1)).reverse.foldl TxState.unmapPage s) := by
  -- on the distance from the first buffer, at which the walk ends
  induction d generalizing s fuel with
  | zero =>
    obtain ⟨fuel, rfl⟩ := exists_eq_succ_of_ne_zero (ne_of_gt hfuel)
    rw [txUnwind, slot_zero hb]
    simp [stretch, slot_zero hb]
  | succ d ih =>
    obtain ⟨fuel, rfl⟩ := exists_eq_succ_of_ne_zero (ne_of_gt (zero_lt_of_lt hfuel))
    have hne : slot n b (d + 1) ≠ b := by
      have := slot_ne (b := b) hd hn (succ_ne_zero d)
      rwa [slot_zero hb] at this
    have hcount' : (s.unmapPage (slot n b (d + 1))).ring.count = n := by
      rw [unmapPage_eq]
      exact hcount
    rw [txUnwind, if_neg hne, hcount', prev_slot_succ hn,
      ih _ hcount' (by omega) (lt_of_succ_lt_succ hfuel), stretch_succ_last _ _ _ (d + 1),
      List.reverse_append, zero_add]
    rfl

/-- The index is biased by the size of the ring. -/
def Cursor.at (n pos : ℕ) : Cursor := ⟨pos, BitVec.ofNat 32 pos - BitVec.ofNat 32 n⟩

theorem Cursor.advance_at {n pos : ℕ} (hn : n < 2 ^ 16) (hpos : pos < n) :
    (Cursor.at n pos).advance n = Cursor.at n (next n pos) := by
  have h₀ : BitVec.toNat (0 : U32) = 0 := rfl
  have h1 : BitVec.toNat (1 : U32) = 1 := rfl
  -- the index runs from `-n` up, in 32 bits
  have hzero : (Cursor.at n pos).i + 1 = 0 ↔ pos + 1 = n := by
    rw [Cursor.at, ← BitVec.toNat_inj]
    simp only [BitVec.toNat_add, BitVec.toNat_sub, BitVec.toNat_ofNat]
    omega
  rw [Cursor.advance, next]
  by_cases h : pos + 1 = n
  · have h0 := hzero.mpr h
    rw [if_pos h0, if_pos h, h0]
    rfl
  · rw [if_neg (mt hzero.mp h), if_neg h, Cursor.at, Cursor.at]
    refine congrArg (Cursor.mk (pos + 1)) ?_
    apply BitVec.eq_of_toNat_eq
    simp only [BitVec.toNat_add, BitVec.toNat_sub, BitVec.toNat_ofNat]
    omega

theorem Cursor.at_index {n pos : ℕ} (hn : n < 2 ^ 16) (hpos : pos < n) :
    ((Cursor.at n pos).i + BitVec.ofNat 32 n).toNat % 2 ^ 16 = pos := by
  rw [Cursor.at]
  simp only [BitVec.toNat_add, BitVec.toNat_sub, BitVec.toNat_ofNat]
  omega

theorem cleanTail_eq {n b : ℕ} (hn : n < 2 ^ 16) (s : TxState) (hcount : s.ring.count = n) {a m : ℕ}
    (ham : a + m < n) {fuel : ℕ} (hfuel : m < fuel) :
    cleanTail (slot n b (a + m)) fuel s (.at n (slot n b a)) =
      some ((stretch n b (a + 1) m).foldl TxState.unmapPage s, .at n (slot n b (a + m))) := by
  have hpos : 0 < n := by omega
  -- on the buffers that are left
  induction m generalizing s a fuel with
  | zero =>
    obtain ⟨fuel, rfl⟩ := exists_eq_succ_of_ne_zero (ne_of_gt hfuel)
    exact if_pos rfl
  | succ m ih =>
    obtain ⟨fuel, rfl⟩ := exists_eq_succ_of_ne_zero (ne_of_gt (zero_lt_of_lt hfuel))
    have hne : (Cursor.at n (slot n b a)).pos ≠ slot n b (a + (m + 1)) :=
      slot_ne (by omega) (by omega) (by omega)
    have hcount' : (s.unmapPage (slot n b (a + 1))).ring.count = n := by
      rw [unmapPage_eq]
      exact hcount
    have hlast : a + (m + 1) = a + 1 + m := by omega
    rw [cleanTail, if_neg hne, hcount, Cursor.advance_at hn (slot_lt hpos b a), next_slot hpos,
      hlast]
    refine (ih _ hcount' (by omega) (lt_of_succ_lt_succ hfuel)).trans ?_
    rw [stretch_succ, List.foldl_cons]

def descs (size : ℕ) : ℕ := (size + (maxDataPerTxd - 1)) / maxDataPerTxd

theorem descs_pos {size : ℕ} (h : 0 < size) : 0 < descs size := by
  rw [descs, maxDataPerTxd]
  omega

theorem descs_of_le {size : ℕ} (h : 0 < size) (hle : ¬ size > maxDataPerTxd) : descs size = 1 := by
  rw [descs]
  simp only [maxDataPerTxd] at hle ⊢
  omega

theorem descs_of_gt {size : ℕ} (h : size > maxDataPerTxd) :
    descs size = descs (size - maxDataPerTxd) + 1 := by
  rw [descs, descs]
  simp only [maxDataPerTxd] at h ⊢
  omega

theorem txSplit_eq {n b : ℕ} (hn : 0 < n) {size : ℕ} (hsize : 0 < size) (s : TxState)
    (hcount : s.ring.count = n) (d : ℕ) : ∃ dd : ℕ → Bool,
    txSplit s (slot n b d) size = (slot n b (d + descs size - 1), { s with ring.dd := dd }) ∧
      (∀ i, i ∉ stretch n b (d + 1) (descs size - 1) → dd i = s.ring.dd i) ∧
      (s.ring.dd (slot n b d) = false → dd (slot n b (d + descs size - 1)) = false) := by
  induction size using Nat.strong_induction_on generalizing s d with
  | _ size ih =>
    rw [txSplit]
    by_cases h : size > maxDataPerTxd
    · rw [if_pos h, hcount, next_slot hn]
      have hpos : 0 < size - maxDataPerTxd := by omega
      have hlt : size - maxDataPerTxd < size := by simp only [maxDataPerTxd] at h ⊢; omega
      -- the rest of the part starts at the next descriptor, whose status was just written
      obtain ⟨dd, heq, hkept, hlast⟩ := ih _ hlt hpos (s.clearDd (slot n b (d + 1))) hcount (d + 1)
      have hdescs := descs_of_gt h
      have hend : d + 1 + descs (size - maxDataPerTxd) - 1 = d + descs size - 1 := by omega
      rw [hend] at heq hlast
      have hd := descs_pos hpos
      refine ⟨dd, heq, fun i hi => ?_, fun _ => hlast (Function.update_self ..)⟩
      rw [show descs size - 1 = descs (size - maxDataPerTxd) - 1 + 1 by omega, stretch_succ,
        List.mem_cons, not_or] at hi
      rw [hkept i hi.2]
      exact Function.update_of_ne hi.1 ..
    · rw [if_neg h, descs_of_le hsize h]
      exact ⟨s.ring.dd, rfl, fun _ _ => rfl, id⟩

/-- Its descriptors and the mappings made for it. -/
structure Packet where
  skb : ℕ
  ndesc : ℕ
  maps : Multiset (ℕ × ℕ)

/-- Its first buffer names its last descriptor. -/
structure PacketAt (n : ℕ) (buf : ℕ → TxBuffer) (b : ℕ) (p : Packet) : Prop where
  pos : 0 < p.ndesc
  watch : (buf b).nextToWatch = some (slot n b (p.ndesc - 1))
  skb : (buf b).skb = some p.skb
  len : (buf b).len ≠ 0
  rest : ∀ j, 0 < j → j < p.ndesc → (buf (slot n b j)).nextToWatch = none
  maps : contents p.ndesc TxBuffer.mapping (fun j => buf (slot n b j)) = p.maps

theorem PacketAt.congr {n b : ℕ} {buf buf' : ℕ → TxBuffer} {p : Packet} (h : PacketAt n buf b p)
    (hb : b < n) (hbuf : ∀ j < p.ndesc, buf' (slot n b j) = buf (slot n b j)) :
    PacketAt n buf' b p := by
  have hfirst : buf' b = buf b := by
    have := hbuf 0 h.pos
    rwa [slot_zero hb] at this
  refine ⟨h.pos, ?_, ?_, ?_, fun j hj hjn => ?_, ?_⟩
  · rw [hfirst]
    exact h.watch
  · rw [hfirst]
    exact h.skb
  · rw [hfirst]
    exact h.len
  · rw [hbuf j hjn]
    exact h.rest j hj hjn
  · rw [← h.maps]
    exact contents_congr fun j hj => congrArg TxBuffer.mapping (hbuf j hj)

end Ixgbe
