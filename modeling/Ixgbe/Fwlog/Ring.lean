import Ixgbe.Hw.Basic
import Ixgbe.Library.EventRun
import Ixgbe.Library.RingFifo
import Mathlib.Data.List.DropRight

/-! # The firmware log ring

`ixgbe_get_fwlog_data` keeps the latest events in a ring, which the user reads, clears and resizes.
-/

namespace Ixgbe

open EventRun RingFifo List Ring

def fwlogRingSizeDflt : ℕ := 256

def fwlogRingSizeMax : ℕ := 512

/-- `num`, not in the source, numbers the events. -/
structure FwlogData where
  dataSize : BitVec 16
  data : List (BitVec 8)
  num : ℕ
  deriving DecidableEq, Repr

/-- Not in the source: the events stored, and the number of the first unread one. -/
structure Fwlog where
  rings : ℕ → FwlogData
  /-- The entries `kcalloc` has allocated for `rings`. -/
  allocated : ℕ
  size : ℕ
  head : ℕ
  tail : ℕ
  registered : Bool
  stored : List FwlogData
  base : ℕ

def fwlogRingFull (s : Fwlog) : Bool :=
  decide ((s.head < s.tail ∧ s.tail - s.head = s.size - 1) ∨
    (s.head > s.tail ∧ s.tail = s.head - 1))

section

variable (s : Fwlog)

def fwlogRingEmpty : Bool := s.head = s.tail

def fwlogRingIncrement (item size : ℕ) : ℕ := (item + 1) &&& (size - 1)

def Fwlog.entry (datalen : BitVec 16) (msgBuf : List (BitVec 8)) : FwlogData where
  dataSize := datalen
  data := msgBuf.take datalen.toNat
  num := s.stored.length

def Fwlog.store (e : FwlogData) : Fwlog :=
  { s with
    rings := Function.update s.rings s.tail e
    tail := fwlogRingIncrement s.tail s.size
    stored := s.stored ++ [e] }

def getFwlogData (datalen : BitVec 16) (msgBuf : List (BitVec 8)) : Fwlog :=
  let s := s.store (s.entry datalen msgBuf)
  -- the ring is full, so the head is bumped to make room
  if fwlogRingFull s then { s with head := fwlogRingIncrement s.head s.size } else s

def Fwlog.readHead : Fwlog :=
  { s with
    head := fwlogRingIncrement s.head s.size
    base := (s.rings s.head).num + 1 }

/-- `fault k`: the `k`-th `copy_to_user` fails. -/
def dataReadLoop (fault : ℕ → Bool) :
    ℕ → Fwlog → ℕ → List FwlogData → List FwlogData × Fwlog
  | 0, s, _, copied => (copied, s)
  | fuel + 1, s, count, copied =>
    if fwlogRingEmpty s then (copied, s)
    else
      let log := s.rings s.head
      if log.dataSize.toNat ≥ count then (copied, s)
      else if fault copied.length then (copied, s)
      else dataReadLoop fault fuel s.readHead (count - log.dataSize.toNat) (copied ++ [log])

/-- The loop goes once around the ring at most. -/
def debugfsDataRead (count : ℕ) (fault : ℕ → Bool) : List FwlogData × Fwlog :=
  dataReadLoop fault s.size s count []

/-- The number of words and what `kstrtos16` says about the first. -/
abbrev CmdLine := Except ℤ (ℕ × Except ℤ ℤ)

def debugfsDataWrite (ppos count : ℕ) (cmd : CmdLine) : ℤ × Fwlog :=
  -- no partial writes
  if ppos ≠ 0 then (0, s)
  else match cmd with
    | .error e => (e, s)
    | .ok (argc, _) =>
      if argc = 1 then
        if s.registered = false then
          (count, { s with head := 0, tail := 0, base := s.stored.length })
        else (eInval, s)
      else (eInval, s)

/-- Whatever the size, `IXGBE_FWLOG_RING_SIZE_DFLT` entries are allocated. -/
def fwlogReallocRings (ringSize : ℕ) (alloc : Bool) : Fwlog :=
  if ringSize = s.size then s
  else if alloc = false then s
  else { s with
    rings := fun _ => ⟨0, [], 0⟩
    allocated := fwlogRingSizeDflt
    size := ringSize
    head := 0
    tail := 0
    base := s.stored.length }

def hweight16 (n : ℕ) : ℕ := ((range 16).filter n.testBit).length

/-- An error, or the new size. -/
def nrBuffsCheck (registered : Bool) (cmd : CmdLine) : Except ℤ ℕ :=
  match cmd with
  | .error e => .error e
  | .ok (argc, nr) =>
    if argc = 1 then
      match nr with
      | .error e => .error e
      | .ok nrBuffs =>
        if nrBuffs ≤ 0 ∨ nrBuffs > fwlogRingSizeMax then .error eInval
        else if hweight16 nrBuffs.toNat > 1 then .error eInval
        else if registered then .error eInval
        else .ok nrBuffs.toNat
    else .error eInval

def debugfsNrBuffsWrite (ppos count : ℕ) (cmd : CmdLine) (alloc : Bool) : ℤ × Fwlog :=
  if ppos ≠ 0 then (0, s)
  else match nrBuffsCheck s.registered cmd with
    | .error e => (e, s)
    | .ok nrBuffs => (count, fwlogReallocRings s nrBuffs alloc)

def fwlogInit (rings : ℕ → FwlogData) (registered : Bool) : Fwlog where
  rings := rings
  allocated := fwlogRingSizeDflt
  size := fwlogRingSizeDflt
  head := 0
  tail := 0
  registered := registered
  stored := []
  base := 0

inductive FwlogEvent
  | fw (datalen : BitVec 16) (msgBuf : List (BitVec 8))
  | dataRead (count : ℕ) (fault : ℕ → Bool)
  | dataWrite (ppos count : ℕ) (cmd : CmdLine)
  | nrBuffsWrite (ppos count : ℕ) (cmd : CmdLine) (alloc : Bool)
  | register (registered : Bool)

def fwlogStep : FwlogEvent → Fwlog
  | .fw datalen msgBuf => getFwlogData s datalen msgBuf
  | .dataRead count fault => (debugfsDataRead s count fault).2
  | .dataWrite ppos count cmd => (debugfsDataWrite s ppos count cmd).2
  | .nrBuffsWrite ppos count cmd alloc => (debugfsNrBuffsWrite s ppos count cmd alloc).2
  | .register registered => { s with registered := registered }

def Fwlog.held : List FwlogData := contents s.size s.rings s.head s.tail

/-- Stored after the last one read, clear or change of size. -/
def Fwlog.unread : List FwlogData := s.stored.drop s.base

/-- **As its users expect**: within the allocation, with the latest unread events. -/
structure FwlogOk (s : Fwlog) : Prop where
  pow : ∃ k, s.size = 2 ^ k
  le_allocated : s.size ≤ s.allocated
  head_lt : s.head < s.size
  tail_lt : s.tail < s.size
  held : s.held = s.unread.rtake (min s.unread.length (max 1 (s.size - 2)))
  newest : s.unread ≠ [] → s.held.getLast? = s.stored.getLast?

/-- The latest `size - 2` unread events; nothing with one or two places. -/
structure Fwlog.Inv (s : Fwlog) : Prop where
  pow : ∃ k, s.size = 2 ^ k
  le_dflt : s.size ≤ fwlogRingSizeDflt
  allocated : s.allocated = fwlogRingSizeDflt
  head_lt : s.head < s.size
  tail_lt : s.tail < s.size
  held : s.held = s.unread.rtake (s.size - 2)
  small : s.size ≤ 2 → s.unread = []
  base_le : s.base ≤ s.stored.length
  nums : s.stored.map FwlogData.num = range s.stored.length

/-- The events that keep the ring in order, seen from the state before. -/
def FwlogEvent.Ok : FwlogEvent → Prop
  | .fw _ _ => 2 < s.size
  | .nrBuffsWrite ppos _ cmd alloc => ppos = 0 → alloc = true →
      ∀ nrBuffs, nrBuffsCheck s.registered cmd = .ok nrBuffs → nrBuffs ≤ fwlogRingSizeDflt
  | _ => True

end

theorem fwlogRingIncrement_eq {size item : ℕ} (hpow : ∃ k, size = 2 ^ k) (h : item < size) :
    fwlogRingIncrement item size = Ring.next size item := by
  obtain ⟨k, rfl⟩ := hpow
  rw [fwlogRingIncrement, Nat.and_two_pow_sub_one_eq_mod, next_eq_slot h, slot]

theorem fwlogRingFull_iff {s : Fwlog} (hh : s.head < s.size) (ht : s.tail < s.size)
    (hne : s.head ≠ s.tail) :
    fwlogRingFull s = true ↔ dist s.size s.head s.tail = s.size - 1 := by
  rw [fwlogRingFull, decide_eq_true_eq, Ring.dist]
  rcases Nat.lt_or_gt_of_ne hne with hlt | hgt
  · rw [show s.tail + s.size - s.head = s.tail - s.head + s.size by omega, Nat.add_mod_right,
      Nat.mod_eq_of_lt (by omega)]
    omega
  · rw [Nat.mod_eq_of_lt (by omega)]
    omega

theorem getFwlogData_small {s : Fwlog} (hsmall : s.size ≤ 2) (ht : s.tail < s.size)
    (hempty : s.head = s.tail) (datalen : BitVec 16) (msgBuf : List (BitVec 8)) :
    (getFwlogData s datalen msgBuf).head = (getFwlogData s datalen msgBuf).tail := by
  have hsize : s.size = 1 ∨ s.size = 2 := by omega
  have htail : s.tail = 0 ∨ s.tail = 1 := by omega
  rcases hsize with hs | hs <;> rcases htail with htl | htl <;>
    first
    | omega
    | simp [getFwlogData, Fwlog.store, fwlogRingFull, fwlogRingIncrement, hempty, hs, htl]

section

variable {s : Fwlog}

theorem Fwlog.Inv.dist_eq (h : s.Inv) :
    dist s.size s.head s.tail = min s.unread.length (s.size - 2) := by
  have hlen := congrArg length h.held
  rw [Fwlog.held, length_contents, rtake, length_drop] at hlen
  omega

theorem Fwlog.Inv.held_eq_drop (h : s.Inv) :
    s.held = s.stored.drop (s.base + (s.unread.length - (s.size - 2))) := by
  rw [h.held, rtake, Fwlog.unread, drop_drop]

theorem Fwlog.Inv.store_held (h : s.Inv) (hsize : 2 < s.size) (e : FwlogData) :
    (s.store e).held = s.held ++ [e] ∧
      (s.store e).tail < s.size ∧ s.head ≠ (s.store e).tail ∧
        dist s.size s.head (s.store e).tail = dist s.size s.head s.tail + 1 := by
  have hroom : dist s.size s.head s.tail + 1 < s.size := by
    rw [h.dist_eq]
    omega
  have htail : (s.store e).tail = Ring.next s.size s.tail := fwlogRingIncrement_eq h.pow h.tail_lt
  have hdist := dist_next_tail h.head_lt h.tail_lt hroom
  rw [htail]
  refine ⟨?_, next_lt h.tail_lt, ?_, hdist⟩
  · rw [Fwlog.held, htail]
    exact contents_push s.rings e h.head_lt h.tail_lt hroom
  · intro hc
    rw [← hc, dist_self] at hdist
    omega

theorem Fwlog.unread_store (h : s.base ≤ s.stored.length) (e : FwlogData) :
    (s.store e).unread = s.unread ++ [e] :=
  drop_append_of_le_length h

theorem rtake_concat_of_le {α : Type*} {l : List α} {c : ℕ} (h : l.length < c) (e : α) :
    (l ++ [e]).rtake c = l.rtake c ++ [e] := by
  rw [rtake, rtake, length_append,
    length_singleton, Nat.sub_eq_zero_of_le h, Nat.sub_eq_zero_of_le h.le, drop_zero, drop_zero]

theorem rtake_concat_of_ge {α : Type*} {l : List α} {c : ℕ} (hc : 0 < c) (h : c ≤ l.length)
    (e : α) : (l ++ [e]).rtake c = (l.rtake c ++ [e]).tail := by
  rw [rtake, rtake, length_append,
    length_singleton, ← drop_one, ← drop_append_of_le_length (by omega), drop_drop]
  congr 1
  omega

theorem Fwlog.Inv.event (h : s.Inv) (hsize : 2 < s.size) (datalen : BitVec 16)
    (msgBuf : List (BitVec 8)) : (getFwlogData s datalen msgBuf).Inv := by
  set e := s.entry datalen msgBuf with he
  obtain ⟨hheld, htail, hne, hdist⟩ := h.store_held hsize e
  have hunread := Fwlog.unread_store h.base_le e
  have hfull : fwlogRingFull (s.store e) = true ↔ s.size - 2 ≤ s.unread.length := by
    rw [fwlogRingFull_iff (s := s.store e) h.head_lt htail hne]
    change dist s.size s.head (s.store e).tail = s.size - 1 ↔ _
    rw [hdist, h.dist_eq]
    omega
  have hbase : s.base ≤ (s.store e).stored.length := by
    rw [Fwlog.store, length_append]
    exact Nat.le_add_right_of_le h.base_le
  have hnums : (s.store e).stored.map FwlogData.num = range (s.store e).stored.length := by
    rw [Fwlog.store, map_append, h.nums, length_append, length_singleton, range_succ]
    rfl
  unfold getFwlogData
  by_cases hf : fwlogRingFull (s.store e) = true
  · rw [if_pos hf]
    have hpop := contents_pop (n := s.size) (s.store e).rings h.head_lt htail hne
    have hinc : fwlogRingIncrement (s.store e).head (s.store e).size = Ring.next s.size s.head :=
      fwlogRingIncrement_eq h.pow h.head_lt
    rw [hinc]
    refine ⟨h.pow, h.le_dflt, h.allocated, next_lt h.head_lt, htail, ?_, fun hs => ?_, hbase, hnums⟩
    · change contents s.size (s.store e).rings (Ring.next s.size s.head) (s.store e).tail =
        (s.store e).unread.rtake (s.size - 2)
      rw [hunread, rtake_concat_of_ge (by omega) (hfull.mp hf), ← h.held, ← hheld, Fwlog.held]
      exact (congrArg List.tail hpop).symm
    · exact absurd hs (Nat.not_le.mpr hsize)
  · rw [if_neg hf]
    refine ⟨h.pow, h.le_dflt, h.allocated, h.head_lt, htail, ?_, fun hs => ?_, hbase, hnums⟩
    · rw [hfull, Nat.not_le] at hf
      change (s.store e).held = (s.store e).unread.rtake (s.size - 2)
      rw [hunread, rtake_concat_of_le hf, ← h.held, hheld]
    · exact absurd hs (Nat.not_le.mpr hsize)

theorem Fwlog.Inv.readHead (h : s.Inv) (hne : s.head ≠ s.tail) : s.readHead.Inv := by
  set p := s.base + (s.unread.length - (s.size - 2)) with hp
  have hpop := contents_pop (n := s.size) s.rings h.head_lt h.tail_lt hne
  have hdrop : s.stored.drop p = s.rings s.head ::
      contents s.size s.rings (Ring.next s.size s.head) s.tail := by
    rw [← h.held_eq_drop, Fwlog.held, hpop]
  have hlt : p < s.stored.length := by
    by_contra hge
    rw [drop_eq_nil_of_le (Nat.not_lt.mp hge)] at hdrop
    cases hdrop
  rw [drop_eq_getElem_cons hlt, List.cons.injEq] at hdrop
  obtain ⟨hfirst, hrest⟩ := hdrop
  -- the entry at the head is event number `p`
  have hnum : (s.rings s.head).num = p := by
    have := getElem_of_eq h.nums (by rw [length_map]; exact hlt)
    rwa [getElem_map, getElem_range, hfirst] at this
  have hinc : fwlogRingIncrement s.head s.size = Ring.next s.size s.head :=
    fwlogRingIncrement_eq h.pow h.head_lt
  have hunread : s.unread.length = s.stored.length - s.base := length_drop
  refine ⟨h.pow, h.le_dflt, h.allocated, ?_, h.tail_lt, ?_, fun hs => ?_, ?_, h.nums⟩
  · rw [Fwlog.readHead, hinc]
    exact next_lt h.head_lt
  · simp only [Fwlog.held, Fwlog.unread, Fwlog.readHead, hinc, hnum]
    rw [← hrest, rtake, length_drop, Nat.sub_eq_zero_of_le (by omega), drop_zero]
  · -- a ring of one or two places has no entry to read
    have hheld := h.held
    rw [Fwlog.held, h.small hs, hpop, rtake_nil] at hheld
    cases hheld
  · simp only [Fwlog.readHead, hnum]
    exact hlt

section

variable (fault : ℕ → Bool) (fuel count : ℕ) (copied : List FwlogData)

theorem Fwlog.Inv.readLoop (h : s.Inv) : (dataReadLoop fault fuel s count copied).2.Inv := by
  induction fuel generalizing s count copied with
  | zero => exact h
  | succ fuel ih =>
    rw [dataReadLoop]
    by_cases hempty : fwlogRingEmpty s = true
    · rwa [if_pos hempty]
    · rw [if_neg hempty]
      by_cases hlen : (s.rings s.head).dataSize.toNat ≥ count
      · rwa [if_pos hlen]
      · rw [if_neg hlen]
        by_cases hfault : fault copied.length = true
        · rwa [if_pos hfault]
        · rw [if_neg hfault]
          exact ih _ _ (h.readHead fun hEq => hempty (decide_eq_true hEq))

end

theorem nrBuffsCheck_ok {registered : Bool} {cmd : CmdLine} {n : ℕ}
    (h : nrBuffsCheck registered cmd = .ok n) : ∃ k, n = 2 ^ k := by
  have hpow : ∀ n ≤ fwlogRingSizeMax, 0 < n → ¬ hweight16 n > 1 → n = 2 ^ n.log2 := by
    decide +kernel
  unfold nrBuffsCheck at h
  split at h
  · cases h
  · split at h
    · split at h
      · cases h
      · split at h
        · cases h
        · split at h
          · cases h
          · split at h
            · cases h
            · rename_i nrBuffs hbounds hweight _
              rw [Except.ok.injEq] at h
              subst h
              exact ⟨_, hpow nrBuffs.toNat (by omega) (by omega) hweight⟩
    · cases h

theorem Fwlog.Inv.realloc (h : s.Inv) {n : ℕ} (hpow : ∃ k, n = 2 ^ k) (alloc : Bool)
    (hn : alloc = true → n ≤ fwlogRingSizeDflt) : (fwlogReallocRings s n alloc).Inv := by
  unfold fwlogReallocRings
  by_cases hsame : n = s.size
  · rwa [if_pos hsame]
  · rw [if_neg hsame]
    cases alloc with
    | false => exact h
    | true =>
      have hpos : 0 < n := by
        obtain ⟨k, rfl⟩ := hpow
        exact Nat.two_pow_pos k
      refine ⟨hpow, hn rfl, rfl, hpos, hpos, ?_, fun _ => ?_, le_rfl, h.nums⟩
      · simp [Fwlog.held, Fwlog.unread]
      · simp [Fwlog.unread]

theorem fwlogInit_inv (rings : ℕ → FwlogData) (registered : Bool) :
    (fwlogInit rings registered).Inv where
  pow := ⟨8, rfl⟩
  le_dflt := le_rfl
  allocated := rfl
  head_lt := show 0 < fwlogRingSizeDflt by decide
  tail_lt := show 0 < fwlogRingSizeDflt by decide
  held := by simp [fwlogInit, Fwlog.held, Fwlog.unread]
  small := fun _ => rfl
  base_le := le_rfl
  nums := rfl

theorem Fwlog.Inv.step (h : s.Inv) {ev : FwlogEvent} (hok : ev.Ok s) : (fwlogStep s ev).Inv := by
  cases ev with
  | fw datalen msgBuf => exact h.event hok datalen msgBuf
  | dataRead count fault => exact h.readLoop fault s.size count []
  | dataWrite ppos count cmd =>
    have hcleared : ({ s with head := 0, tail := 0, base := s.stored.length } : Fwlog).Inv := by
      have hpos : 0 < s.size := Nat.zero_lt_of_lt h.head_lt
      refine ⟨h.pow, h.le_dflt, h.allocated, hpos, hpos, ?_, fun _ => ?_, le_rfl, h.nums⟩
      · simp [Fwlog.held, Fwlog.unread]
      · simp [Fwlog.unread]
    simp only [fwlogStep, debugfsDataWrite]
    split
    · exact h
    · split
      · exact h
      · split
        · split
          · exact hcleared
          · exact h
        · exact h
  | nrBuffsWrite ppos count cmd alloc =>
    simp only [fwlogStep, debugfsNrBuffsWrite]
    split
    · exact h
    · rename_i hppos
      split
      · exact h
      · rename_i n hcheck
        exact h.realloc (nrBuffsCheck_ok hcheck) alloc fun halloc =>
          hok (not_not.mp hppos) halloc n hcheck
  | register registered =>
    exact { h with }

theorem Fwlog.Inv.ok (h : s.Inv) : FwlogOk s := by
  refine ⟨h.pow, h.allocated ▸ h.le_dflt, h.head_lt, h.tail_lt, ?_, fun hne => ?_⟩
  · rw [h.held]
    by_cases hsmall : s.size ≤ 2
    · rw [h.small hsmall]
      simp
    · rw [rtake, rtake]
      congr 1
      omega
  · have hsize : ¬ s.size ≤ 2 := fun hs => hne (h.small hs)
    have hlen : 0 < s.unread.length := length_pos_iff.mpr hne
    have hunread : s.unread.length = s.stored.length - s.base := length_drop
    rw [h.held_eq_drop, getLast?_drop, if_neg (by omega)]

theorem Fwlog.Inv.not_ok (h : s.Inv) {ev : FwlogEvent} (hbad : ¬ ev.Ok s) :
    ¬ FwlogOk (fwlogStep s ev) := by
  cases ev with
  | fw datalen msgBuf =>
    intro hok
    have hsmall : s.size ≤ 2 := Nat.not_lt.mp hbad
    have hempty : s.head = s.tail := by
      rw [← dist_eq_zero_iff h.head_lt h.tail_lt, h.dist_eq, h.small hsmall]
      rfl
    -- the event is stored, and the ring is empty all the same
    have hheld : (getFwlogData s datalen msgBuf).held = [] := by
      rw [Fwlog.held, getFwlogData_small hsmall h.tail_lt hempty, contents_self]
    have hstored : (getFwlogData s datalen msgBuf).stored =
        s.stored ++ [s.entry datalen msgBuf] := by
      simp only [getFwlogData]
      split <;> rfl
    have hbase : (getFwlogData s datalen msgBuf).base = s.base := by
      simp only [getFwlogData]
      split <;> rfl
    have hunread : (getFwlogData s datalen msgBuf).unread ≠ [] := by
      rw [Fwlog.unread, hstored, hbase, drop_append_of_le_length h.base_le]
      exact concat_ne_nil _ _
    have hnewest := hok.newest hunread
    change (getFwlogData s datalen msgBuf).held.getLast? = _ at hnewest
    rw [hheld] at hnewest
    change none = (getFwlogData s datalen msgBuf).stored.getLast? at hnewest
    rw [hstored, getLast?_concat] at hnewest
    cases hnewest
  | nrBuffsWrite ppos count cmd alloc =>
    simp only [FwlogEvent.Ok] at hbad
    push Not at hbad
    obtain ⟨hppos, halloc, n, hcheck, hlarge⟩ := hbad
    intro hok
    have hle := hok.le_allocated
    have hne : n ≠ s.size := by
      have := h.le_dflt
      omega
    simp only [fwlogStep, debugfsNrBuffsWrite, hppos, ne_eq, not_true_eq_false, if_false, hcheck,
      fwlogReallocRings, if_neg hne, halloc, Bool.true_eq_false] at hle
    omega
  | dataRead count fault => exact absurd trivial hbad
  | dataWrite ppos count cmd => exact absurd trivial hbad
  | register registered => exact absurd trivial hbad

end

/-- **The firmware log ring is as expected all along a run if and only if** no event comes while it
has one or two places, and its size is never above the 256 allocated. -/
theorem fwlog_ok_iff (rings : ℕ → FwlogData) (registered : Bool) (evs : List FwlogEvent) :
    After fwlogStep FwlogOk (fwlogInit rings registered) evs ↔
      Along fwlogStep (fun s ev => ev.Ok s) (fwlogInit rings registered) evs := by
  refine after_iff_along (fun _ _ => True) (fun s ev (h : s.Inv) _ hok => h.step hok)
    (fun s h => h.ok) (fun s ev h _ hbad => h.not_ok hbad) (fwlogInit_inv rings registered) ?_
  exact along_of_forall (q := fun _ => True) _ evs fun _ _ => trivial

def nrBuffsText (n : ℤ) : CmdLine := .ok (1, .ok n)

def emptyFwlog : Fwlog := fwlogInit (fun _ => ⟨0, [], 0⟩) false

def fwlogTwoPlaces : Fwlog :=
  run fwlogStep emptyFwlog [.nrBuffsWrite 0 2 (nrBuffsText 2) true, .fw 1 [7]]

def fwlogTooLarge : Fwlog :=
  run fwlogStep emptyFwlog [.nrBuffsWrite 0 4 (nrBuffsText 512) true]

/-- Two places do not hold the event just stored; of 512 entries 256 are allocated. -/
theorem fwlog_two_places_and_too_large :
    fwlogTwoPlaces.unread.length = 1 ∧ fwlogTwoPlaces.held = [] ∧ ¬ FwlogOk fwlogTwoPlaces ∧
      fwlogTooLarge.size = 512 ∧ fwlogTooLarge.allocated = 256 ∧ ¬ FwlogOk fwlogTooLarge := by
  refine ⟨by decide, by decide, fun h => ?_, by decide, by decide, fun h => ?_⟩
  · exact absurd (h.newest (by decide)) (by decide)
  · exact absurd h.le_allocated (by decide)

end Ixgbe
