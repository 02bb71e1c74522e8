import Ixgbe.Queues.Config

/-! # The firmware dump

`ixgbe_debugfs_fw_dump` asks the firmware for one block after the other and puts a header before
each. The firmware says what comes next and how long a block is. -/

namespace Ixgbe

open List

def fwDumpBlkMax : ℕ := 0xFFFF

def fwDumpDataSize : ℕ := 4096

def fwDumpBlkSize : ℕ := fwDumpDataSize + 24

/-- The status, the buffer of 4096 bytes, `buf_len` and what comes next. -/
structure DumpAnswer where
  res : ℤ
  buf : ℕ → U8
  len : Fin 4097
  nextCluster : U16
  nextTbl : U16
  nextBlk : U32

/-- A command that was answered. -/
structure DumpCmd where
  cluster : U16
  tbl : U16
  blk : U32
  answer : DumpAnswer

/-- With the commands, and position and length of all stores to `vblk`. -/
structure DumpState where
  cluster : U16
  tbl : U16
  blk : U32
  ntw : ℕ
  ctw : ℕ
  offset : ℕ
  mem : ℕ → U8
  cmds : List DumpCmd
  stores : List (ℕ × ℕ)

def le32 (x : U32) : List U8 :=
  [x.setWidth 8, (x >>> 8).setWidth 8, (x >>> 16).setWidth 8, (x >>> 24).setWidth 8]

structure DumpRecord where
  cluster : U32
  table : U32
  tableLen : U32
  tableOffset : U32
  data : List U8

/-- `struct ixgbe_cluster_header`. -/
def DumpRecord.header (r : DumpRecord) : List U8 :=
  le32 r.cluster ++ le32 r.table ++ le32 r.tableLen ++ le32 r.tableOffset ++ le32 0 ++ le32 0

def DumpState.store (s : DumpState) (pos : ℕ) (n : ℕ) (byte : ℕ → U8) : DumpState :=
  { s with
    mem := fun j => if pos ≤ j ∧ j < pos + n then byte (j - pos) else s.mem j
    stores := s.stores ++ [(pos, n)] }

def DumpCmd.record (c : DumpCmd) (offset : ℕ) : DumpRecord where
  cluster := c.cluster.setWidth 32
  table := c.tbl.setWidth 32
  tableLen := .ofNat 32 c.answer.len
  tableOffset := .ofNat 32 offset
  data := (range c.answer.len).map c.answer.buf

/-- The command and the header, up to the new `ctw` and `offset`. -/
def DumpState.block (s : DumpState) (a : DumpAnswer) : DumpState :=
  let c : DumpCmd := ⟨s.cluster, s.tbl, s.blk, a⟩
  let s := s.store (s.ntw + 24) fwDumpDataSize a.buf
  let s := s.store s.ctw 24 fun j => (c.record s.offset).header.getD j 0
  { s with
    ntw := s.ntw + 24 + a.len
    ctw := s.ntw + 24 + a.len
    offset := s.offset + a.len
    cmds := s.cmds ++ [c] }

/-- The block was the last one of its table. -/
def DumpCmd.Last (c : DumpCmd) : Prop := c.blk = c.answer.nextBlk ∨ c.answer.nextBlk = 0xFFFFFFFF

instance (c : DumpCmd) : Decidable c.Last := inferInstanceAs (Decidable (_ ∨ _))

/-- After a command that succeeded; whether another one follows. -/
def DumpState.round (lastTbl : U16) (readAll : Bool) (s : DumpState) (a : DumpAnswer) :
    DumpState × Bool :=
  if ¬ (DumpCmd.mk s.cluster s.tbl s.blk a).Last then ({ s.block a with blk := a.nextBlk }, true)
  else
    let s' := { s.block a with blk := 0, offset := 0 }
    if a.nextCluster = 0xFFFF then (s', false)
    else
      let s' := { s' with tbl := if a.nextTbl ≠ lastTbl then a.nextTbl else s'.tbl }
      if s.cluster ≠ a.nextCluster then
        if readAll then ({ s' with cluster := a.nextCluster, tbl := 0 }, true) else (s', false)
      else (s', true)

/-- The loop, with `left` rounds to come. -/
def fwDumpLoop (answer : ℕ → DumpAnswer) (lastTbl : U16) (readAll : Bool) :
    ℕ → ℕ → DumpState → ℤ × DumpState
  | 0, _, s => (success, s)
  | left + 1, i, s =>
    if (answer i).res ≠ 0 then (eInval, s.store (s.ntw + 24) fwDumpDataSize (answer i).buf)
    else
      let r := s.round lastTbl readAll (answer i)
      if r.2 then fwDumpLoop answer lastTbl readAll left (i + 1) r.1 else (success, r.1)

/-- With the buffer allocated; `mem` is what is in it. -/
def debugfsFwDump (answer : ℕ → DumpAnswer) (nextClusterIdSupport readAll : Bool) (cluster : U16)
    (mem : ℕ → U8) : ℤ × DumpState :=
  fwDumpLoop answer (if nextClusterIdSupport then 0xFFFF else 0xFF) readAll fwDumpBlkMax 0
    ⟨cluster, 0, 0, 0, 0, 0, mem, [], []⟩

/-! ## The blob -/

def DumpState.blob (s : DumpState) : List U8 := (range s.ntw).map s.mem

/-- Records one after the other, each as long as its header says. -/
def Parses (blob : List U8) (rs : List DumpRecord) : Prop :=
  (∀ r ∈ rs, r.data.length = r.tableLen.toNat) ∧ rs.flatMap (fun r => r.header ++ r.data) = blob

/-- The offset starts over with each visit of a table. -/
def dumpRecords : ℕ → List DumpCmd → List DumpRecord
  | _, [] => []
  | offset, c :: cs =>
    c.record offset :: dumpRecords (if c.Last then 0 else offset + c.answer.len) cs

def nextOffset (offset : ℕ) (cs : List DumpCmd) : ℕ :=
  cs.foldl (fun off c => if c.Last then 0 else off + c.answer.len) offset

theorem dumpRecords_snoc (offset : ℕ) (cs : List DumpCmd) (c : DumpCmd) :
    dumpRecords offset (cs ++ [c]) =
      dumpRecords offset cs ++ [c.record (nextOffset offset cs)] := by
  induction cs generalizing offset with
  | nil => rfl
  | cons b cs ih => simp [dumpRecords, ih, nextOffset]

theorem dumpRecords_wf (offset : ℕ) (cs : List DumpCmd) :
    ∀ r ∈ dumpRecords offset cs, r.data.length = r.tableLen.toNat := by
  induction cs generalizing offset with
  | nil => exact nofun
  | cons c cs ih =>
    refine forall_mem_cons.mpr ⟨?_, ih _⟩
    simp [DumpCmd.record]
    omega

theorem le32_injective {x y : U32} (h : le32 x = le32 y) : x = y := by
  simp only [le32, List.cons.injEq, and_true] at h
  obtain ⟨h0, h1, h2, h3⟩ := h
  apply BitVec.eq_of_toNat_eq
  have hn (k : ℕ) (h : (x >>> k).setWidth 8 = (y >>> k).setWidth 8) :
      x.toNat / 2 ^ k % 256 = y.toNat / 2 ^ k % 256 := by
    simpa [BitVec.toNat_setWidth, Nat.shiftRight_eq_div_pow] using congrArg BitVec.toNat h
  have := hn 0 (by simpa using h0)
  have := hn 8 h1
  have := hn 16 h2
  have := hn 24 h3
  omega

theorem header_injective {r r' : DumpRecord} (h : r.header = r'.header) :
    r.cluster = r'.cluster ∧ r.table = r'.table ∧ r.tableLen = r'.tableLen ∧
      r.tableOffset = r'.tableOffset := by
  simp only [DumpRecord.header, append_assoc] at h
  obtain ⟨h1, h⟩ := append_inj h rfl
  obtain ⟨h2, h⟩ := append_inj h rfl
  obtain ⟨h3, h⟩ := append_inj h rfl
  obtain ⟨h4, -⟩ := append_inj h rfl
  exact ⟨le32_injective h1, le32_injective h2, le32_injective h3, le32_injective h4⟩

theorem Parses.unique {blob : List U8} {rs rs' : List DumpRecord} (h : Parses blob rs)
    (h' : Parses blob rs') : rs' = rs := by
  obtain ⟨hwf, rfl⟩ := h
  obtain ⟨hwf', heq⟩ := h'
  induction rs generalizing rs' with
  | nil =>
    cases rs' with
    | nil => rfl
    | cons r' rs' => simp [DumpRecord.header, le32] at heq
  | cons r rs ih =>
    cases rs' with
    | nil => simp [DumpRecord.header, le32] at heq
    | cons r' rs' =>
      rw [flatMap_cons, flatMap_cons, append_assoc, append_assoc] at heq
      obtain ⟨hhead, htail⟩ := append_inj heq rfl
      obtain ⟨hc, ht, hl, ho⟩ := header_injective hhead
      rw [forall_mem_cons] at hwf hwf'
      obtain ⟨hdata, hrest⟩ := append_inj htail (by rw [hwf.1, hwf'.1, hl])
      cases r
      cases r'
      simp_all

/-- After `i` rounds, the blob is the records of the commands so far. -/
structure DumpState.Good (i : ℕ) (s : DumpState) : Prop where
  ctw : s.ctw = s.ntw
  ntw : s.ntw ≤ i * 4120
  offset : s.offset = nextOffset 0 s.cmds
  blob : s.blob = (dumpRecords 0 s.cmds).flatMap fun r => r.header ++ r.data
  stores : ∀ w ∈ s.stores, w.1 + w.2 ≤ i * 4120
  lens : (s.cmds.map fun c => (c.answer.len : ℕ)).sum ≤ s.ntw

theorem blob_block (s : DumpState) (a : DumpAnswer) (hctw : s.ctw = s.ntw) :
    (s.block a).blob = s.blob ++
      (((DumpCmd.mk s.cluster s.tbl s.blk a).record s.offset).header ++
        ((DumpCmd.mk s.cluster s.tbl s.blk a).record s.offset).data) := by
  generalize hr : (DumpCmd.mk s.cluster s.tbl s.blk a).record s.offset = r
  have hdata : r.data = (range a.len).map a.buf := hr ▸ rfl
  have hheader : r.header = (range 24).map fun j => r.header.getD j 0 := rfl
  have hmem (j : ℕ) : (s.block a).mem j = if s.ntw ≤ j ∧ j < s.ntw + 24 then
      r.header.getD (j - s.ntw) 0 else if s.ntw + 24 ≤ j ∧ j < s.ntw + 24 + 4096 then
        a.buf (j - (s.ntw + 24)) else s.mem j := by
    subst hr
    simp only [DumpState.block, DumpState.store, hctw]
    rfl
  have hpart (k n : ℕ) (f : ℕ → U8) (h : ∀ j < n, (s.block a).mem (k + j) = f j) :
      ((range n).map (k + ·)).map (s.block a).mem = (range n).map f := by
    rw [map_map]
    exact map_congr_left fun j hj => h j (mem_range.mp hj)
  have hold : (range s.ntw).map (s.block a).mem = (range s.ntw).map s.mem := by
    refine map_congr_left fun j hj => ?_
    have := mem_range.mp hj
    rw [hmem, if_neg (by omega), if_neg (by omega)]
  have hntw : (s.block a).ntw = s.ntw + 24 + a.len := rfl
  unfold DumpState.blob
  rw [hntw, range_add, range_add, map_append, map_append, hold,
    hpart _ _ (fun j => r.header.getD j 0), hpart _ _ a.buf, append_assoc, hdata, ← hheader]
  · intro j hj
    rw [hmem, if_neg (by omega), if_pos (by omega), Nat.add_sub_cancel_left]
  · intro j hj
    rw [hmem, if_pos (by omega), Nat.add_sub_cancel_left]

section

variable {i : ℕ} {s : DumpState} {lastTbl : U16} {readAll : Bool} {a : DumpAnswer}

/-- **One round** adds one record. -/
theorem DumpState.Good.round (h : s.Good i) : (s.round lastTbl readAll a).1.Good (i + 1) := by
  have hntw := h.ntw
  let c : DumpCmd := ⟨s.cluster, s.tbl, s.blk, a⟩
  have hall (cl t : U16) (b : U32) (off : ℕ) (hoff : off = if c.Last then 0 else s.offset + a.len) :
      DumpState.Good (i + 1)
        { s.block a with cluster := cl, tbl := t, blk := b, offset := off } := by
    constructor <;> dsimp only
    · rfl
    · change s.ntw + 24 + a.len ≤ _
      omega
    · rw [hoff, h.offset]
      change _ = nextOffset 0 (s.cmds ++ [c])
      simp [nextOffset, c]
    · refine (blob_block s a h.ctw).trans ?_
      rw [h.blob, h.offset]
      change _ = (dumpRecords 0 (s.cmds ++ [c])).flatMap _
      rw [dumpRecords_snoc, flatMap_append]
      simp [c]
    · have hold := h.stores
      have hctw := h.ctw
      simp [DumpState.block, DumpState.store, fwDumpDataSize]
      grind
    · have := h.lens
      simp [DumpState.block, DumpState.store]
      omega
  unfold DumpState.round
  by_cases hlast : c.Last
  · rw [if_neg (not_not.mpr hlast)]
    split_ifs <;> exact hall _ _ _ _ (if_pos hlast).symm
  · rw [if_pos hlast]
    exact hall _ _ _ _ (if_neg hlast).symm

theorem DumpState.Good.mono (h : s.Good i) {j : ℕ} (hij : i ≤ j) : s.Good j :=
  { h with
    ntw := h.ntw.trans (Nat.mul_le_mul_right _ hij)
    stores := fun w hw => (h.stores w hw).trans (Nat.mul_le_mul_right _ hij) }

/-- On success the blob is the records, and no store leaves the buffer. -/
theorem fwDumpLoop_good (answer : ℕ → DumpAnswer) (left : ℕ) (h : s.Good i) :
    ((fwDumpLoop answer lastTbl readAll left i s).1 = success →
      (fwDumpLoop answer lastTbl readAll left i s).2.Good (i + left)) ∧
    ∀ w ∈ (fwDumpLoop answer lastTbl readAll left i s).2.stores, w.1 + w.2 ≤ (i + left) * 4120 := by
  induction left generalizing i s with
  | zero => exact ⟨fun _ => h, h.stores⟩
  | succ left ih =>
    have hround := @DumpState.Good.round i s lastTbl readAll (answer i) h
    unfold fwDumpLoop
    dsimp only
    split_ifs
    · -- the buffer of a failed command may have been written
      refine ⟨fun h => absurd (show eInval = success from h) (by decide), fun w hw => ?_⟩
      have hntw := h.ntw
      dsimp only [DumpState.store, fwDumpDataSize] at hw
      rw [mem_append, mem_singleton] at hw
      rcases hw with hw | hw
      · exact (h.stores w hw).trans (Nat.mul_le_mul_right _ (Nat.le_add_right ..))
      · rw [hw, Nat.add_mul, Nat.add_mul]
        omega
    · have := ih hround
      rwa [Nat.add_assoc, Nat.add_comm 1] at this
    · exact ⟨fun _ => hround.mono (by omega), (hround.mono (by omega)).stores⟩

/-- **The dump**: no store leaves the buffer, and after a success the blob parses in one way only,
as one record for each command; no offset is truncated. -/
theorem debugfsFwDump_layout (answer : ℕ → DumpAnswer) (support readAll : Bool) (cluster : U16)
    (mem : ℕ → U8) :
    (∀ w ∈ (debugfsFwDump answer support readAll cluster mem).2.stores,
      w.1 + w.2 ≤ fwDumpBlkMax * fwDumpBlkSize) ∧
    ((debugfsFwDump answer support readAll cluster mem).1 = success →
      (∀ rs, Parses (debugfsFwDump answer support readAll cluster mem).2.blob rs ↔
        rs = dumpRecords 0 (debugfsFwDump answer support readAll cluster mem).2.cmds) ∧
      ((debugfsFwDump answer support readAll cluster mem).2.cmds.map fun c =>
        (c.answer.len : ℕ)).sum < 2 ^ 32) := by
  have hstart : DumpState.Good 0 ⟨cluster, 0, 0, 0, 0, 0, mem, [], []⟩ :=
    ⟨rfl, le_rfl, rfl, rfl, nofun, le_rfl⟩
  have hloop := @fwDumpLoop_good 0 _ (if support then 0xFFFF else 0xFF) readAll answer fwDumpBlkMax
    hstart
  generalize hr : debugfsFwDump answer support readAll cluster mem = r
  rw [← debugfsFwDump, hr] at hloop
  refine ⟨hloop.2, fun hok => ?_⟩
  have hgood := hloop.1 hok
  have hlens := hgood.lens
  have hntw := hgood.ntw
  have hmax : fwDumpBlkMax = 65535 := rfl
  have hparses : Parses r.2.blob (dumpRecords 0 r.2.cmds) := ⟨dumpRecords_wf _ _, hgood.blob.symm⟩
  exact ⟨fun rs => ⟨hparses.unique, fun h => h ▸ hparses⟩, by omega⟩

end

end Ixgbe
