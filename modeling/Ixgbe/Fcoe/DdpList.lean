import Ixgbe.Fcoe.Ddp

/-! # The address list of a DDP context

At most 256 buffers of 4096 bytes. The last may not be full, so data that ends on a boundary is
followed by an unused buffer. -/

namespace Ixgbe

open List Nat

/-- The bytes from `off` in the first buffer up to `size` in the last. -/
def placed (off size : ℕ) : List ℕ → List ℕ
  | [] => []
  | [a] => List.range' (a + off) (size - off)
  | a :: b :: as => List.range' (a + off) (bufflen - off) ++ placed 0 size (b :: as)

theorem placed_snoc (off size a : ℕ) {as : List ℕ} (has : as ≠ []) :
    placed off size (as ++ [a]) = placed off bufflen as ++ List.range' a size := by
  induction as generalizing off with
  | nil => exact absurd rfl has
  | cons b as ih =>
    cases as with
    | nil => simp [placed]
    | cons c as => simpa [placed] using ih 0 (cons_ne_nil c as)

def segmentBytes (segs : List (ℕ × ℕ)) : List ℕ := segs.flatMap fun s => List.range' s.1 s.2

def bufferCount (s : ℕ × ℕ) : ℕ := (s.1 % bufflen + s.2 + (bufflen - 1)) / bufflen

/-- Every segment but the first starts, and every one but the last ends, on a boundary. -/
def BuffersAligned (segs : List (ℕ × ℕ)) : Prop :=
  (∀ s ∈ segs.tail, s.1 % bufflen = 0) ∧ ∀ s ∈ segs.dropLast, (s.1 + s.2) % bufflen = 0

def endsFull (segs : List (ℕ × ℕ)) : Bool := segs.getLast?.any fun s => (s.1 + s.2) % bufflen = 0

def entriesNeeded (segs : List (ℕ × ℕ)) : ℕ :=
  (segs.map bufferCount).sum + if endsFull segs then 1 else 0

structure DdpLoop.Describes (l : DdpLoop) (bs : List ℕ) : Prop where
  length : l.udl.length = l.j
  firstoff : l.firstoff < bufflen
  bytes : placed l.firstoff (l.thisoff + l.thislen) l.udl = bs

def DdpLoop.next (l : DdpLoop) (addr n : ℕ) : DdpLoop where
  j := l.j + 1
  udl := l.udl ++ [addr - addr % bufflen]
  firstoff := if l.j = 0 then addr % bufflen else l.firstoff
  thisoff := addr % bufflen
  thislen := n

theorem DdpLoop.Describes.next {l : DdpLoop} {bs : List ℕ} (h : l.Describes bs) {addr n : ℕ}
    (hprev : l.j = 0 ∨ l.thisoff + l.thislen = bufflen ∧ addr % bufflen = 0) :
    (l.next addr n).Describes (bs ++ List.range' addr n) := by
  have hle := mod_le addr bufflen
  refine ⟨by simp [DdpLoop.next, h.length], ?_, ?_⟩
  · rw [DdpLoop.next]
    split_ifs
    · exact mod_lt _ (by decide)
    · exact h.firstoff
  · by_cases hj : l.j = 0
    · have hudl : l.udl = [] := length_eq_zero_iff.mp (h.length.trans hj)
      have hbs : bs = [] := by rw [← h.bytes, hudl, placed]
      simp [DdpLoop.next, hudl, hbs, hj, placed, Nat.sub_add_cancel hle]
    · obtain ⟨hfull, haligned⟩ := hprev.resolve_left hj
      have hne : l.udl ≠ [] := fun hnil => hj (by rw [← h.length, hnil, length_nil])
      simp only [DdpLoop.next, hj, if_false, haligned, Nat.zero_add, Nat.sub_zero]
      rw [placed_snoc _ _ _ hne, ← hfull, h.bytes]

def SegmentFits (last : Bool) (addr len : ℕ) (l : DdpLoop) : Prop :=
  (l.j = 0 ∨ addr % bufflen = 0) ∧ (last = true ∨ (addr + len) % bufflen = 0) ∧
    l.j + bufferCount (addr, len) ≤ buffcntMax

theorem bufferCount_pos {s : ℕ × ℕ} (h : 0 < s.2) : 0 < bufferCount s := by
  unfold bufferCount bufflen
  omega

theorem last_buffer {addr len : ℕ} (hlen : 0 < len) (hshort : addr % 4096 + len ≤ 4096) :
    min (bufflen - addr % bufflen) len = len ∧ bufferCount (addr, len) = 1 ∧
      ((addr + len) % bufflen = 0 ↔ len + addr % bufflen = bufflen) := by
  unfold bufferCount bufflen
  omega

theorem full_buffer {addr len : ℕ} (hlong : 4096 < addr % 4096 + len) :
    ∃ n k, min (bufflen - addr % bufflen) len = n ∧ n + addr % bufflen = bufflen ∧
      len = n + (k + 1) ∧ (addr + n) % bufflen = 0 ∧
      bufferCount (addr, len) = bufferCount (addr + n, k + 1) + 1 := by
  refine ⟨4096 - addr % 4096, len - (4096 - addr % 4096) - 1, ?_⟩
  unfold bufferCount bufflen
  omega

theorem ddpSegment_spec (last : Bool) (fuel addr len : ℕ) (l : DdpLoop) {bs : List ℕ}
    (hlen : 0 < len) (hfuel : buffcntMax < l.j + fuel) (h : l.Describes bs)
    (hprev : l.j = 0 ∨ l.thisoff + l.thislen = bufflen) :
    (ddpSegment last fuel addr len l = none ∧ ¬ SegmentFits last addr len l) ∨
      SegmentFits last addr len l ∧ ∃ l', ddpSegment last fuel addr len l = some l' ∧
        l'.Describes (bs ++ List.range' addr len) ∧ l'.j = l.j + bufferCount (addr, len) ∧
        l'.thisoff + l'.thislen = (addr + len - 1) % bufflen + 1 := by
  induction fuel generalizing addr len l bs with
  | zero =>
    obtain ⟨m, rfl⟩ := exists_eq_succ_of_ne_zero hlen.ne'
    exact .inl ⟨rfl, fun hfits => by have := hfits.2.2; omega⟩
  | succ fuel ih =>
    have hpos : 0 < bufferCount (addr, len) := bufferCount_pos hlen
    obtain ⟨m, rfl⟩ := exists_eq_succ_of_ne_zero hlen.ne'
    rw [ddpSegment]
    by_cases hj : l.j ≥ buffcntMax
    · rw [if_pos hj]
      exact .inl ⟨rfl, fun hfits => by have := hfits.2.2; omega⟩
    by_cases halign : l.j ≠ 0 ∧ addr % bufflen ≠ 0
    · rw [if_neg hj, if_pos halign]
      exact .inl ⟨rfl, fun hfits => hfits.1.elim halign.1 halign.2⟩
    have halign' : l.j = 0 ∨ addr % bufflen = 0 := by tauto
    have hround : (l.next addr (min (bufflen - addr % bufflen) (m + 1))).Describes _ :=
      h.next (by tauto)
    rw [if_neg hj, if_neg halign]
    by_cases hshort : addr % 4096 + (m + 1) ≤ 4096
    · obtain ⟨hmin, hcount, hfull⟩ := last_buffer hlen hshort
      rw [hmin] at hround ⊢
      simp only [SegmentFits, Nat.succ_eq_add_one, hfull, hcount]
      split
      · exact .inl ⟨rfl, fun hfits => by simp_all⟩
      · rw [Nat.sub_self]
        refine .inr ⟨⟨halign', by cases last <;> simp_all, by omega⟩, _, by cases fuel <;> rfl,
          hround, rfl, ?_⟩
        change addr % 4096 + (m + 1) = (addr + (m + 1) - 1) % 4096 + 1
        omega
    · obtain ⟨n, k, hmin, hn, hk, haddr, hcount⟩ := full_buffer (Nat.lt_of_not_le hshort)
      rw [hmin] at hround ⊢
      rw [if_neg fun hend => hend.2 hn, Nat.succ_eq_add_one]
      rw [hk] at hcount ⊢
      rw [Nat.add_sub_cancel_left]
      change (ddpSegment last fuel (addr + n) (k + 1) (l.next addr n) = none ∧ _) ∨ _ ∧
        ∃ l', ddpSegment last fuel (addr + n) (k + 1) (l.next addr n) = some l' ∧ _
      have hj1 : (l.next addr n).j = l.j + 1 := rfl
      have hfull1 : (l.next addr n).thisoff + (l.next addr n).thislen = bufflen :=
        (add_comm ..).trans hn
      generalize l.next addr n = l1 at *
      have hfits :
          SegmentFits last addr (n + (k + 1)) l ↔ SegmentFits last (addr + n) (k + 1) l1 := by
        simp only [SegmentFits, haddr, halign', hcount, hj1, or_true, true_and, add_assoc,
          add_comm 1]
      rw [hfits, hcount]
      rcases ih (addr + n) (k + 1) l1 (Nat.succ_pos k) (by omega) hround (.inr hfull1)
        with hnone | ⟨hok, l', hl', hd, hj', hlast⟩
      · exact .inl hnone
      · refine .inr ⟨hok, l', hl', ?_, by omega, ?_⟩
        · rwa [append_assoc, range'_append_1] at hd
        · rw [hlast, add_assoc]

def DdpLoop.Fits (l : DdpLoop) (segs : List (ℕ × ℕ)) : Prop :=
  (∀ s ∈ if l.j = 0 then segs.tail else segs, s.1 % bufflen = 0) ∧
    (∀ s ∈ segs.dropLast, (s.1 + s.2) % bufflen = 0) ∧
    l.j + (segs.map bufferCount).sum ≤ buffcntMax

theorem DdpLoop.fits_cons {l l1 : DdpLoop} {s : ℕ × ℕ} (segs : List (ℕ × ℕ)) (hs : 0 < s.2)
    (hj : l1.j = l.j + bufferCount s) :
    l.Fits (s :: segs) ↔ SegmentFits segs.isEmpty s.1 s.2 l ∧ l1.Fits segs := by
  have hpos := bufferCount_pos hs
  have hstart : (∀ t ∈ if l.j = 0 then segs else s :: segs, t.1 % bufflen = 0) ↔
      (l.j = 0 ∨ s.1 % bufflen = 0) ∧ ∀ t ∈ segs, t.1 % bufflen = 0 := by
    by_cases h0 : l.j = 0 <;> simp [h0]
  have hend : (∀ t ∈ (s :: segs).dropLast, (t.1 + t.2) % bufflen = 0) ↔
      (segs.isEmpty = true ∨ (s.1 + s.2) % bufflen = 0) ∧
        ∀ t ∈ segs.dropLast, (t.1 + t.2) % bufflen = 0 := by
    cases segs <;> simp
  rw [DdpLoop.Fits, DdpLoop.Fits, SegmentFits, if_neg (by omega : ¬ l1.j = 0), tail_cons,
    hstart, hend, hj, map_cons, sum_cons, ← add_assoc]
  have hsum : l.j + bufferCount s + (segs.map bufferCount).sum ≤ buffcntMax →
      l.j + bufferCount (s.1, s.2) ≤ buffcntMax := (Nat.le_add_right ..).trans
  constructor
  · rintro ⟨⟨halign, hsegs⟩, ⟨hfull, hinner⟩, hle⟩
    exact ⟨⟨halign, hfull, hsum hle⟩, hsegs, hinner, hle⟩
  · rintro ⟨⟨halign, hfull, -⟩, hsegs, hinner, hle⟩
    exact ⟨⟨halign, hsegs⟩, ⟨hfull, hinner⟩, hle⟩

theorem ddpSegments_spec (segs : List (ℕ × ℕ)) (l : DdpLoop) {bs : List ℕ}
    (hsegs : ∀ s ∈ segs, 0 < s.2) (h : l.Describes bs) (hmax : l.j ≤ buffcntMax)
    (hprev : segs ≠ [] → l.j = 0 ∨ l.thisoff + l.thislen = bufflen) :
    (ddpSegments segs l = none ∧ ¬ l.Fits segs) ∨
      l.Fits segs ∧ ∃ l', ddpSegments segs l = some l' ∧
        l'.Describes (bs ++ segmentBytes segs) ∧ l'.j = l.j + (segs.map bufferCount).sum ∧
        ∀ s ∈ segs.getLast?, l'.thisoff + l'.thislen = (s.1 + s.2 - 1) % bufflen + 1 := by
  induction segs generalizing l bs with
  | nil =>
    refine .inr ⟨⟨by simp, nofun, hmax⟩, l, rfl, ?_, rfl, nofun⟩
    rwa [segmentBytes, flatMap_nil, append_nil]
  | cons s segs ih =>
    have hs := hsegs s mem_cons_self
    rw [ddpSegments]
    rcases ddpSegment_spec segs.isEmpty (buffcntMax + 1) s.1 s.2 l hs (by omega) h
      (hprev (cons_ne_nil s segs)) with ⟨hnone, hfits⟩ | ⟨hfits, l1, hl1, h1, hj1, hlast1⟩
    · rw [hnone]
      refine .inl ⟨rfl, fun hall => hfits ?_⟩
      have hj1 : DdpLoop.j { j := l.j + bufferCount s } = l.j + bufferCount s := rfl
      exact ((DdpLoop.fits_cons segs hs hj1).mp hall).1
    · rw [hl1, DdpLoop.fits_cons segs hs hj1, and_iff_right hfits]
      have hprev1 : segs ≠ [] → l1.j = 0 ∨ l1.thisoff + l1.thislen = bufflen := by
        intro hne
        have hfull := hfits.2.1.resolve_left (by simpa using hne)
        rw [hlast1]
        unfold bufflen at *
        exact .inr (by omega)
      have hmax1 : l1.j ≤ buffcntMax := hj1 ▸ hfits.2.2
      rcases ih l1 (fun t ht => hsegs t (mem_cons_of_mem s ht)) h1 hmax1 hprev1 with
        hnone | ⟨hok, l', hl', hd, hj', hlast'⟩
      · exact .inl hnone
      · refine .inr ⟨hok, l', hl', ?_, ?_, ?_⟩
        · rwa [append_assoc] at hd
        · rw [hj', hj1, map_cons, sum_cons, add_assoc]
        · cases segs with
          | nil =>
            intro t ht
            cases hl'
            cases ht
            exact hlast1
          | cons t segs => simpa using hlast'

/-- **The entries describe the segments** from the offset up to the size of the last, with the extra
entry if the segments end on a boundary. -/
def PlacesData (extra : ℕ) (segs : List (ℕ × ℕ)) (udl : List ℕ) (offset lastsize : ℕ) : Prop :=
  if endsFull segs then
    ∃ full, udl = full ++ [extra] ∧ lastsize = 1 ∧ placed offset bufflen full = segmentBytes segs
  else placed offset lastsize udl = segmentBytes segs

namespace DdpRegs

/-- The number of entries in `BUFFCNT`, where 0 stands for 256. -/
def count (r : DdpRegs) : ℕ :=
  if r.fcbuff.toNat / 2 ^ 8 % 2 ^ 8 = 0 then 256 else r.fcbuff.toNat / 2 ^ 8 % 2 ^ 8

def offset (r : DdpRegs) : ℕ := r.fcbuff.toNat / 2 ^ 16

def lastsize (r : DdpRegs) : ℕ := r.fcdmarw.toNat / 2 ^ 16

/-- A valid context with buffers of 4 KB, for its own exchange. -/
def Valid (r : DdpRegs) (xid : ℕ) : Prop :=
  r.fcbuff.toNat % 2 = 1 ∧ r.fcbuff.toNat / 2 ^ 3 % 4 = 0 ∧ r.fcdmarw.toNat % 2 ^ 14 = xid

end DdpRegs

theorem toNat_ofNat_shiftLeft_16 (n : ℕ) :
    (BitVec.ofNat 32 n <<< 16 : U32).toNat = 2 ^ 16 * (n % 2 ^ 16) := by
  rw [BitVec.toNat_shiftLeft, BitVec.toNat_ofNat, Nat.shiftLeft_eq]
  omega

/-- The fields of `FCBUFF` do not overlap. -/
theorem DdpProgram.toNat_fcbuff (p : DdpProgram) (targetMode : Bool) :
    (p.fcbuff targetMode).toNat = 2 ^ 16 * (p.firstoff % 2 ^ 16) +
      (2 ^ 8 * (p.j % 2 ^ 8) + if targetMode then 0x81 else 1) := by
  have hj : ((BitVec.ofNat 32 p.j &&& 0xff) <<< 8 : U32).toNat = 2 ^ 8 * (p.j % 2 ^ 8) := by
    have hmod : (BitVec.ofNat 32 p.j &&& 0xff : U32).toNat = p.j % 2 ^ 32 % 2 ^ 8 :=
      Nat.and_two_pow_sub_one_eq_mod _ 8
    rw [BitVec.toNat_shiftLeft, hmod, Nat.shiftLeft_eq]
    omega
  have hlow : ((if targetMode then 0x80 else 0) ||| 1 : U32).toNat =
      if targetMode then 0x81 else 1 := by cases targetMode <;> rfl
  have hlt : (if targetMode then 0x81 else 1) < 2 ^ 8 := by cases targetMode <;> decide
  rw [DdpProgram.fcbuff, show (0 : U32) <<< 3 = 0#32 from rfl, BitVec.zero_or,
    BitVec.or_comm ((BitVec.ofNat 32 p.j &&& 0xff) <<< 8), BitVec.or_assoc, BitVec.or_assoc,
    BitVec.toNat_or, BitVec.toNat_or, toNat_ofNat_shiftLeft_16, hj, hlow,
    ← two_pow_add_eq_or_of_lt hlt, ← two_pow_add_eq_or_of_lt (by omega)]

theorem DdpProgram.toNat_fcdmarw (p : DdpProgram) {xid : ℕ} (h : xid < 2 ^ 14) :
    (p.fcdmarw xid).toNat = 2 ^ 16 * (p.lastsize % 2 ^ 16) + (2 ^ 14 + xid) := by
  have hlow : (BitVec.ofNat 32 xid ||| 0x4000 : U32).toNat = 2 ^ 14 + xid := by
    rw [BitVec.or_comm, BitVec.toNat_or, BitVec.toNat_ofNat, mod_eq_of_lt (by omega)]
    exact (two_pow_add_eq_or_of_lt h 1).symm
  rw [DdpProgram.fcdmarw, BitVec.or_comm, BitVec.toNat_or, toNat_ofNat_shiftLeft_16, hlow,
    ← two_pow_add_eq_or_of_lt (by omega)]

/-- What the loop finds, and the bounds that the fields of the registers need. -/
structure DdpProgram.Describes (p : DdpProgram) (extra : ℕ) (segs : List (ℕ × ℕ)) : Prop where
  length : p.udl.length = p.j
  pos : 0 < p.j
  le : p.j ≤ buffcntMax
  firstoff : p.firstoff < bufflen
  lastsize : p.lastsize ≤ bufflen
  exact : PlacesData extra segs p.udl p.firstoff p.lastsize

theorem DdpProgram.Describes.regs {p : DdpProgram} {extra : ℕ} {segs : List (ℕ × ℕ)}
    (h : p.Describes extra segs) {xid : ℕ} (hxid : xid < 2 ^ 14) {r : DdpRegs} {targetMode : Bool}
    (hbuff : r.fcbuff = p.fcbuff targetMode) (hdma : r.fcdmarw = p.fcdmarw xid) :
    r.Valid xid ∧ p.udl.length = r.count ∧ PlacesData extra segs p.udl r.offset r.lastsize := by
  replace hbuff := (congrArg BitVec.toNat hbuff).trans (p.toNat_fcbuff targetMode)
  replace hdma := (congrArg BitVec.toNat hdma).trans (p.toNat_fcdmarw hxid)
  obtain ⟨hlen, hpos, hle, hoff, hlast, hexact⟩ := h
  unfold buffcntMax at hle
  unfold bufflen at hoff hlast
  have hoffset : r.offset = p.firstoff := by
    rw [DdpRegs.offset]
    split at hbuff <;> omega
  have hlastsize : r.lastsize = p.lastsize := by
    rw [DdpRegs.lastsize]
    omega
  have hcount : r.count = p.j := by
    rw [DdpRegs.count]
    split at hbuff <;> split <;> omega
  rw [hoffset, hlastsize, hcount, DdpRegs.Valid]
  refine ⟨?_, hlen, hexact⟩
  split at hbuff <;> omega

theorem fits_start_iff (segs : List (ℕ × ℕ)) : DdpLoop.Fits {} segs ↔
    BuffersAligned segs ∧ (segs.map bufferCount).sum ≤ buffcntMax := by
  simp [DdpLoop.Fits, BuffersAligned, and_assoc]

theorem ddpProgram_spec (extra : ℕ) {segs : List (ℕ × ℕ)} (hne : segs ≠ [])
    (hsegs : ∀ s ∈ segs, 0 < s.2) :
    (ddpProgram extra segs = none ∧ (BuffersAligned segs → buffcntMax < entriesNeeded segs)) ∨
      BuffersAligned segs ∧ entriesNeeded segs ≤ buffcntMax ∧
        ∃ p, ddpProgram extra segs = some p ∧ p.Describes extra segs := by
  unfold ddpProgram entriesNeeded
  have hstart : DdpLoop.Describes {} [] := ⟨rfl, by decide, rfl⟩
  rcases ddpSegments_spec segs {} hsegs hstart (by decide) (fun _ => .inl rfl) with
    ⟨hnone, hfits⟩ | ⟨hfits, l, hl, hd, hj, hlast⟩
  · rw [hnone]
    rw [fits_start_iff] at hfits
    refine .inl ⟨rfl, fun halign => ?_⟩
    exact (Nat.lt_of_not_le fun hle => hfits ⟨halign, hle⟩).trans_le (Nat.le_add_right ..)
  · rw [hl]
    rw [fits_start_iff] at hfits
    have hpos : 0 < l.j := by
      obtain ⟨s, segs, rfl⟩ := exists_cons_of_ne_nil hne
      have := bufferCount_pos (hsegs s mem_cons_self)
      simp only [hj, map_cons, sum_cons]
      omega
    have hend : (endsFull segs = true ↔ l.thisoff + l.thislen = bufflen) ∧
        l.thisoff + l.thislen ≤ bufflen := by
      have hs := List.getLast?_eq_some_getLast hne
      have hlen := hsegs _ (getLast_mem hne)
      rw [hlast _ hs, endsFull, hs]
      unfold bufflen
      simp only [Option.any_some, decide_eq_true_eq]
      omega
    have hbytes := hd.bytes.trans (nil_append _)
    rw [← Nat.zero_add (List.sum _)] at hfits ⊢
    rw [← hj] at hfits ⊢
    dsimp only
    by_cases hfull : l.thisoff + l.thislen = bufflen
    · have hfull' := hend.1.mpr hfull
      rw [if_pos hfull, if_pos hfull']
      split
      case isTrue hmax =>
        exact .inl ⟨rfl, fun _ => lt_succ_of_le hmax⟩
      case isFalse hmax =>
        have hle : l.j + 1 ≤ buffcntMax := Nat.lt_of_not_le hmax
        refine .inr ⟨hfits.1, hle, _, rfl, ?_, Nat.succ_pos _, hle, hd.firstoff,
          show 1 ≤ 4096 by decide, ?_⟩
        · rw [length_append, hd.length, length_singleton]
        · rw [PlacesData, if_pos hfull', ← hbytes, hfull]
          exact ⟨l.udl, rfl, rfl, rfl⟩
    · have hfull' := hend.1.not.mpr hfull
      rw [if_neg hfull, if_neg hfull']
      refine .inr ⟨hfits.1, hfits.2, _, rfl, hd.length, hpos, hfits.2, hd.firstoff, hend.2, ?_⟩
      rw [PlacesData, if_neg hfull']
      exact hbytes

/-- **`ixgbe_fcoe_ddp_setup` programs a context that describes the segments exactly, or gives
everything back**, the latter if and only if they cannot be described. -/
theorem ddp_list_exact (cfg : FcoeCfg) (s : Fcoe) (q : DdpSetup) {sgl pool : ℕ}
    (hq : q.Admitted cfg) (hsgl : q.sgl = some sgl) (hfree : (s.ddp q.xid).sgl = none)
    (hpools : cfg.ddpPool = true) (hpool : q.pool = some pool) (halloc : q.alloc = true)
    (hne : q.segs ≠ []) (hsegs : ∀ seg ∈ q.segs, 0 < seg.2) (s' : Fcoe)
    (hs' : (fcoeDdpSetup cfg s q).2 = s') :
    ((fcoeDdpSetup cfg s q).1 = 0 ∨ (fcoeDdpSetup cfg s q).1 = 1) ∧
      ((fcoeDdpSetup cfg s q).1 = 1 →
        (s'.ddp q.xid).udl = some (s'.hw.regs q.xid).fcptr ∧ (s'.hw.regs q.xid).Valid q.xid ∧
        (s'.hw.entries (s'.hw.regs q.xid).fcptr).length = (s'.hw.regs q.xid).count ∧
        PlacesData cfg.extraDdpBufferDma q.segs (s'.hw.entries (s'.hw.regs q.xid).fcptr)
          (s'.hw.regs q.xid).offset (s'.hw.regs q.xid).lastsize) ∧
      ((fcoeDdpSetup cfg s q).1 = 0 ↔
        ¬ BuffersAligned q.segs ∨ entriesNeeded q.segs > buffcntMax) ∧
      ((fcoeDdpSetup cfg s q).1 = 0 → ∃ block,
        s' = { ddp := Function.update s.ddp q.xid { (s.ddp q.xid).clear with pool := some pool }
               hw := s.hw
               mapped := (sgl, q.sgc) :: s.mapped
               unmapped := (some sgl, q.sgc) :: s.unmapped
               taken := (pool, block) :: s.taken
               returned := (some pool, block) :: s.returned }) := by
  subst hs'
  have hxid : q.xid < 2 ^ 14 := by
    have hlt := lt_ddpMax hq.2.2.1
    unfold FcoeCfg.ddpMax at hlt
    split at hlt <;> omega
  unfold fcoeDdpSetup ddpSetupCleared
  simp only [hq, if_true, hfree, ne_eq, not_true, if_false, hpools, Bool.true_eq_false, hpool, hne,
    halloc, hsgl, Option.getD_some]
  rcases ddpProgram_spec cfg.extraDdpBufferDma hne hsegs with
    ⟨hnone, hbad⟩ | ⟨halign, hmax, p, hp, hexact⟩
  · rw [hnone]
    refine ⟨.inl rfl, fun h => absurd h zero_ne_one, iff_of_true rfl ?_,
      fun _ => ⟨s.taken.length, ?_⟩⟩
    · exact (Classical.em (BuffersAligned q.segs)).symm.imp_right hbad
    · simp [Fcoe.setDdp, Fcoe.poolFree, Fcoe.unmapSg, Fcoe.poolAlloc, Fcoe.mapSg, DdpContext.clear]
  · rw [hp]
    refine ⟨.inr rfl, fun _ => ?_, iff_of_false one_ne_zero ?_, fun h => absurd h one_ne_zero⟩
    · simp only [Fcoe.setDdp, DdpHw.program, Function.update_self, true_and]
      exact hexact.regs hxid rfl rfl
    · rintro (hbad | hbad)
      · exact hbad halign
      · exact hbad.not_ge hmax

/-- Two segments for exchange 1. -/
def twoSegments : DdpSetup where
  xid := 1
  sgl := some 5
  sgc := 2
  down := false
  pool := some 0
  segs := [(100, 3996), (8192, 10)]
  alloc := true
  targetMode := false

theorem ddp_list_exact_of_two :
    let s := (fcoeDdpSetup ⟨.mac82599EB, true, 4096⟩ Fcoe.initial twoSegments).2
    (s.ddp 1).udl = some (s.hw.regs 1).fcptr ∧ (s.hw.regs 1).Valid 1 ∧
      (s.hw.entries (s.hw.regs 1).fcptr).length = (s.hw.regs 1).count ∧
      PlacesData 4096 [(100, 3996), (8192, 10)] (s.hw.entries (s.hw.regs 1).fcptr)
        (s.hw.regs 1).offset (s.hw.regs 1).lastsize :=
  (ddp_list_exact ⟨.mac82599EB, true, 4096⟩ Fcoe.initial twoSegments (by decide) rfl rfl rfl rfl rfl
    (by decide) (by decide) _ rfl).2.1 (by decide)

end Ixgbe
