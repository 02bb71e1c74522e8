import Ixgbe.Hw.Basic
import Ixgbe.Library.Deal

/-! # Interrupt vectors and their rings

`ixgbe_alloc_q_vectors` deals Rx and Tx rings with a stride, XDP rings in order. -/

namespace Ixgbe

open Deal Function List

inductive RingKind where
  | rx
  | tx
  | xdp
deriving DecidableEq, Repr

/-- Tx and XDP rings are in one container, told apart by `ring_is_xdp`. -/
structure VectorRings where
  tx : List ℕ
  xdp : List ℕ
  rx : List ℕ

def VectorRings.of (qv : VectorRings) : RingKind → List ℕ
  | .rx => qv.rx
  | .tx => qv.tx
  | .xdp => qv.xdp

/-- A ring is the vector of its `q_vector`, `none` where there is no ring. -/
structure VectorAdapter where
  numQVectors : ℕ
  numRxQueues : ℕ
  numTxQueues : ℕ
  numXdpQueues : ℕ
  qVector : ℕ → Option VectorRings
  rxRing : ℕ → Option ℕ
  txRing : ℕ → Option ℕ
  xdpRing : ℕ → Option ℕ

def VectorAdapter.numQueues (a : VectorAdapter) : RingKind → ℕ
  | .rx => a.numRxQueues
  | .tx => a.numTxQueues
  | .xdp => a.numXdpQueues

def VectorAdapter.ring (a : VectorAdapter) : RingKind → ℕ → Option ℕ
  | .rx => a.rxRing
  | .tx => a.txRing
  | .xdp => a.xdpRing

/-- `count` rings of vector `v` are assigned, from index `idx` on in steps of `stride`. -/
def assignRings (v stride : ℕ) : ℕ → ℕ → (ℕ → Option ℕ) → ℕ → Option ℕ
  | 0, _, ring => ring
  | count + 1, idx, ring => assignRings v stride count (idx + stride) (update ring idx v)

/-- Rx and Tx rings step by the number of vectors, XDP rings by one. -/
def allocQVector (a : VectorAdapter)
    (vCount vIdx txrCount txrIdx xdpCount xdpIdx rxrCount rxrIdx : ℕ) : VectorAdapter :=
  { a with
    qVector := update a.qVector vIdx <| some
      { tx := strided vCount txrCount txrIdx
        xdp := strided 1 xdpCount xdpIdx
        rx := strided vCount rxrCount rxrIdx }
    txRing := assignRings vIdx vCount txrCount txrIdx a.txRing
    xdpRing := assignRings vIdx 1 xdpCount xdpIdx a.xdpRing
    rxRing := assignRings vIdx vCount rxrCount rxrIdx a.rxRing }

structure VectorLoop where
  adapter : VectorAdapter
  vIdx : ℕ
  rxrRemaining : ℕ
  txrRemaining : ℕ
  xdpRemaining : ℕ
  rxrIdx : ℕ
  txrIdx : ℕ
  xdpIdx : ℕ

def VectorLoop.rxVector (qVectors : ℕ) (l : VectorLoop) : VectorLoop :=
  { l with
    adapter := allocQVector l.adapter qVectors l.vIdx 0 0 0 0 1 l.rxrIdx
    rxrRemaining := l.rxrRemaining - 1
    rxrIdx := l.rxrIdx + 1
    vIdx := l.vIdx + 1 }

/-- A vector with its share of the rings left. -/
def VectorLoop.vector (qVectors : ℕ) (l : VectorLoop) : VectorLoop :=
  let rqpv := divRoundUp l.rxrRemaining (qVectors - l.vIdx)
  let tqpv := divRoundUp l.txrRemaining (qVectors - l.vIdx)
  let xqpv := divRoundUp l.xdpRemaining (qVectors - l.vIdx)
  { adapter := allocQVector l.adapter qVectors l.vIdx tqpv l.txrIdx xqpv l.xdpIdx rqpv l.rxrIdx
    vIdx := l.vIdx + 1
    rxrRemaining := l.rxrRemaining - rqpv
    txrRemaining := l.txrRemaining - tqpv
    xdpRemaining := l.xdpRemaining - xqpv
    rxrIdx := l.rxrIdx + 1
    txrIdx := l.txrIdx + 1
    xdpIdx := l.xdpIdx + xqpv }

/-- A failed allocation leaves the loop with the variables as they are. -/
def vectorLoop (alloc : ℕ → Bool) (body : VectorLoop → VectorLoop) :
    ℕ → VectorLoop → Except VectorLoop VectorLoop
  | 0, l => .ok l
  | count + 1, l =>
    if alloc l.vIdx then vectorLoop alloc body count (body l) else .error l

def clearRings (idxs : List ℕ) (ring : ℕ → Option ℕ) : ℕ → Option ℕ :=
  idxs.foldl (fun r i => update r i none) ring

/-- The source reads the vector without a test. -/
def freeQVector (a : VectorAdapter) (v : ℕ) : VectorAdapter :=
  match a.qVector v with
  | none => a
  | some qv =>
    { a with
      qVector := update a.qVector v none
      txRing := clearRings qv.tx a.txRing
      xdpRing := clearRings qv.xdp a.xdpRing
      rxRing := clearRings qv.rx a.rxRing }

/-- At the exit `err_out`, the last one first. -/
def freeQVectorsBelow : ℕ → VectorAdapter → VectorAdapter
  | 0, a => a
  | v + 1, a => freeQVectorsBelow v (freeQVector a v)

def allocQVectorsErr (l : VectorLoop) : VectorAdapter :=
  freeQVectorsBelow l.vIdx
    { l.adapter with numTxQueues := 0, numXdpQueues := 0, numRxQueues := 0, numQVectors := 0 }

def VectorAdapter.loop (a : VectorAdapter) : VectorLoop where
  adapter := a
  vIdx := 0
  rxrRemaining := a.numRxQueues
  txrRemaining := a.numTxQueues
  xdpRemaining := a.numXdpQueues
  rxrIdx := 0
  txrIdx := 0
  xdpIdx := 0

def allocQVectorsLoops (alloc : ℕ → Bool) (a : VectorAdapter) : Except VectorLoop VectorLoop := do
  let qVectors := a.numQVectors
  let l ← if qVectors ≥ a.numRxQueues + a.numTxQueues + a.numXdpQueues then
      vectorLoop alloc (VectorLoop.rxVector qVectors) a.numRxQueues a.loop
    else .ok a.loop
  vectorLoop alloc (VectorLoop.vector qVectors) (qVectors - l.vIdx) l

def allocQVectors (alloc : ℕ → Bool) (a : VectorAdapter) : ℤ × VectorAdapter :=
  match allocQVectorsLoops alloc a with
  | .ok l => (success, l.adapter)
  | .error l => (eNoMem, allocQVectorsErr l)

/-! ## The rings of a vector

Both loops give vector `v` the rings `VectorAdapter.rings` names, and nothing else changes: after
`v` vectors the adapter is `VectorAdapter.placed v`. -/

theorem foldl_update_apply (idxs : List ℕ) (x : Option ℕ) (ring : ℕ → Option ℕ) (i : ℕ) :
    idxs.foldl (fun r j => update r j x) ring i = if i ∈ idxs then x else ring i := by
  induction idxs generalizing ring with
  | nil => rfl
  | cons j js ih =>
    rw [foldl_cons, ih]
    by_cases hrest : i ∈ js
    · rw [if_pos hrest, if_pos (mem_cons_of_mem j hrest)]
    · rw [if_neg hrest]
      by_cases hi : i = j
      · rw [hi, update_self, if_pos mem_cons_self]
      · rw [update_of_ne hi, if_neg]
        rintro (_ | ⟨_, hmem⟩)
        · exact hi rfl
        · exact hrest hmem

theorem assignRings_apply (v stride count idx : ℕ) (ring : ℕ → Option ℕ) (i : ℕ) :
    assignRings v stride count idx ring i =
      if i ∈ strided stride count idx then some v else ring i := by
  rw [← foldl_update_apply]
  induction count generalizing idx ring with
  | zero => rfl
  | succ count ih => rw [assignRings, ih, strided, foldl_cons]

theorem clearRings_apply (idxs : List ℕ) (ring : ℕ → Option ℕ) (i : ℕ) :
    clearRings idxs ring i = if i ∈ idxs then none else ring i :=
  foldl_update_apply idxs none ring i

def VectorAdapter.firstShared (a : VectorAdapter) : ℕ :=
  if a.numQVectors ≥ a.numRxQueues + a.numTxQueues + a.numXdpQueues then a.numRxQueues else 0

/-- **The rings of vector `v`.** -/
def VectorAdapter.rings (a : VectorAdapter) (v : ℕ) : VectorRings :=
  let first := a.firstShared
  let hands := a.numQVectors - first
  if v < first then { tx := [], xdp := [], rx := [v] }
  else
    { tx := strided a.numQVectors (share a.numTxQueues hands (v - first)) (v - first)
      xdp := strided 1 (share a.numXdpQueues hands (v - first))
        (dealt a.numXdpQueues hands (v - first))
      rx := strided a.numQVectors (share (a.numRxQueues - first) hands (v - first)) v }

def VectorAdapter.place (a : VectorAdapter) (v : ℕ) (qv : VectorRings) : VectorAdapter :=
  { a with
    qVector := update a.qVector v (some qv)
    txRing := fun i => if i ∈ qv.tx then some v else a.txRing i
    xdpRing := fun i => if i ∈ qv.xdp then some v else a.xdpRing i
    rxRing := fun i => if i ∈ qv.rx then some v else a.rxRing i }

def VectorAdapter.placed (a : VectorAdapter) : ℕ → VectorAdapter
  | 0 => a
  | v + 1 => (a.placed v).place v (a.rings v)

open VectorAdapter

theorem allocQVector_eq (a : VectorAdapter)
    (vCount vIdx txrCount txrIdx xdpCount xdpIdx rxrCount rxrIdx : ℕ) :
    allocQVector a vCount vIdx txrCount txrIdx xdpCount xdpIdx rxrCount rxrIdx =
      a.place vIdx
        { tx := strided vCount txrCount txrIdx
          xdp := strided 1 xdpCount xdpIdx
          rx := strided vCount rxrCount rxrIdx } := by
  unfold allocQVector place
  simp only [funext (assignRings_apply _ _ _ _ _)]

structure VectorLoop.Dedicated (a : VectorAdapter) (l : VectorLoop) : Prop where
  adapter : l.adapter = a.placed l.vIdx
  rxrRemaining : l.rxrRemaining = a.numRxQueues - l.vIdx
  txrRemaining : l.txrRemaining = a.numTxQueues
  xdpRemaining : l.xdpRemaining = a.numXdpQueues
  rxrIdx : l.rxrIdx = l.vIdx
  txrIdx : l.txrIdx = 0
  xdpIdx : l.xdpIdx = 0

structure VectorLoop.Shared (a : VectorAdapter) (l : VectorLoop) : Prop where
  adapter : l.adapter = a.placed l.vIdx
  le_vIdx : a.firstShared ≤ l.vIdx
  rxrRemaining : l.rxrRemaining = a.numRxQueues - a.firstShared -
    dealt (a.numRxQueues - a.firstShared) (a.numQVectors - a.firstShared) (l.vIdx - a.firstShared)
  txrRemaining : l.txrRemaining = a.numTxQueues -
    dealt a.numTxQueues (a.numQVectors - a.firstShared) (l.vIdx - a.firstShared)
  xdpRemaining : l.xdpRemaining = a.numXdpQueues -
    dealt a.numXdpQueues (a.numQVectors - a.firstShared) (l.vIdx - a.firstShared)
  rxrIdx : l.rxrIdx = l.vIdx
  txrIdx : l.txrIdx = l.vIdx - a.firstShared
  xdpIdx : l.xdpIdx =
    dealt a.numXdpQueues (a.numQVectors - a.firstShared) (l.vIdx - a.firstShared)

section

variable {a : VectorAdapter}

variable {l : VectorLoop} {i m v : ℕ}

theorem VectorLoop.Dedicated.rxVector (h : l.Dedicated a)
    (hfirst : a.firstShared = a.numRxQueues) (hv : l.vIdx < a.numRxQueues) :
    (l.rxVector a.numQVectors).Dedicated a := by
  have hrings : a.rings l.vIdx = { tx := [], xdp := [], rx := [l.vIdx] } :=
    if_pos (hfirst.symm ▸ hv)
  constructor <;> simp only [VectorLoop.rxVector, h.txrRemaining, h.xdpRemaining, h.txrIdx,
    h.xdpIdx]
  case adapter =>
    rw [allocQVector_eq, h.adapter, h.rxrIdx, VectorAdapter.placed, hrings]
    rfl
  case rxrRemaining => rw [h.rxrRemaining]; omega
  case rxrIdx => rw [h.rxrIdx]

theorem VectorLoop.Shared.vector (h : l.Shared a)
    (hv : l.vIdx < a.numQVectors) : (l.vector a.numQVectors).Shared a := by
  have hle := h.le_vIdx
  have hlt : l.vIdx - a.firstShared < a.numQVectors - a.firstShared := by omega
  have hleft : a.numQVectors - l.vIdx =
      a.numQVectors - a.firstShared - (l.vIdx - a.firstShared) := by omega
  have hsucc : l.vIdx + 1 - a.firstShared = l.vIdx - a.firstShared + 1 := by omega
  have hR := divRoundUp_left (n := a.numRxQueues - a.firstShared) hlt
  have hT := divRoundUp_left (n := a.numTxQueues) hlt
  have hX := divRoundUp_left (n := a.numXdpQueues) hlt
  rw [← h.rxrRemaining, ← hleft] at hR
  rw [← h.txrRemaining, ← hleft] at hT
  rw [← h.xdpRemaining, ← hleft] at hX
  have hrings : a.rings l.vIdx = _ := if_neg (Nat.not_lt.mpr hle)
  constructor <;> simp only [VectorLoop.vector, hR, hT, hX, hsucc]
  case adapter =>
    rw [allocQVector_eq, h.adapter, VectorAdapter.placed, hrings, h.txrIdx, h.xdpIdx, h.rxrIdx]
  case le_vIdx => omega
  case rxrRemaining => rw [h.rxrRemaining, dealt_succ]; omega
  case txrRemaining => rw [h.txrRemaining, dealt_succ]; omega
  case xdpRemaining => rw [h.xdpRemaining, dealt_succ]; omega
  case rxrIdx => rw [h.rxrIdx]
  case txrIdx => rw [h.txrIdx]
  case xdpIdx => rw [h.xdpIdx, dealt_succ]

/-- **The rule of the loops**: an invariant of the body holds where the loop ends or is left. -/
theorem vectorLoop_cases {alloc : ℕ → Bool} {body : VectorLoop → VectorLoop} {last : ℕ}
    (I : VectorLoop → Prop) (hstep : ∀ l, I l → l.vIdx < last → I (body l))
    (hidx : ∀ l, (body l).vIdx = l.vIdx + 1) {count : ℕ} (hI : I l)
    (hcount : l.vIdx + count = last) (hall : ∀ v < l.vIdx, alloc v = true) :
    (∃ l', vectorLoop alloc body count l = .ok l' ∧ I l' ∧ l'.vIdx = last ∧
        ∀ v < l'.vIdx, alloc v = true) ∨
      ∃ l', vectorLoop alloc body count l = .error l' ∧ I l' ∧ l'.vIdx < last ∧
        alloc l'.vIdx = false := by
  induction count generalizing l with
  | zero => exact .inl ⟨l, rfl, hI, hcount, hall⟩
  | succ count ih =>
    rw [vectorLoop]
    by_cases halloc : alloc l.vIdx = true
    · rw [if_pos halloc]
      refine ih (hstep l hI (by omega)) (by rw [hidx]; omega) ?_
      rw [hidx]
      exact Nat.forall_lt_succ_right.mpr ⟨hall, halloc⟩
    · rw [if_neg halloc]
      exact .inr ⟨l, rfl, hI, by omega, by simpa using halloc⟩

/-- All vectors are placed, or those before the one whose allocation failed. -/
def AllocEnds (alloc : ℕ → Bool) (a : VectorAdapter) (r : Except VectorLoop VectorLoop) : Prop :=
  (∃ l, r = .ok l ∧ l.adapter = a.placed a.numQVectors ∧ ∀ v < a.numQVectors, alloc v = true) ∨
    ∃ l, r = .error l ∧ l.adapter = a.placed l.vIdx ∧ l.vIdx < a.numQVectors ∧
      alloc l.vIdx = false

theorem allocQVectorsLoops_cases (alloc : ℕ → Bool) (a : VectorAdapter) :
    AllocEnds alloc a (allocQVectorsLoops alloc a) := by
  -- the second loop, from the state in which the first one leaves the variables
  have hsecond : ∀ l : VectorLoop, l.Shared a → l.vIdx ≤ a.numQVectors →
      (∀ v < l.vIdx, alloc v = true) → AllocEnds alloc a
        (vectorLoop alloc (VectorLoop.vector a.numQVectors) (a.numQVectors - l.vIdx) l) := by
    intro l hl hle hall
    rcases vectorLoop_cases (VectorLoop.Shared a) (fun _ h hv => h.vector hv) (fun _ => rfl) hl
      (Nat.add_sub_cancel' hle) hall with ⟨l', hrun, h, hv, hall⟩ | ⟨l', hrun, h, hv⟩
    · exact .inl ⟨l', hrun, hv ▸ h.adapter, hv ▸ hall⟩
    · exact .inr ⟨l', hrun, h.adapter, hv⟩
  unfold allocQVectorsLoops
  by_cases hmany : a.numQVectors ≥ a.numRxQueues + a.numTxQueues + a.numXdpQueues
  · have hfirst : a.firstShared = a.numRxQueues := if_pos hmany
    rw [if_pos hmany]
    rcases vectorLoop_cases (l := a.loop) (VectorLoop.Dedicated a)
      (fun _ h hv => h.rxVector hfirst hv) (fun _ => rfl) ⟨rfl, rfl, rfl, rfl, rfl, rfl, rfl⟩
      (Nat.zero_add a.numRxQueues) nofun with ⟨l, hrun, h, hv, hall⟩ | ⟨l, hrun, h, hv, halloc⟩
    · have hzero : l.vIdx - a.firstShared = 0 := by omega
      have hshared : l.Shared a :=
        { adapter := h.adapter
          le_vIdx := by omega
          rxrRemaining := by rw [h.rxrRemaining, hzero, dealt_zero]; omega
          txrRemaining := by rw [h.txrRemaining, hzero, dealt_zero]; rfl
          xdpRemaining := by rw [h.xdpRemaining, hzero, dealt_zero]; rfl
          rxrIdx := h.rxrIdx
          txrIdx := by rw [h.txrIdx, hzero]
          xdpIdx := by rw [h.xdpIdx, hzero, dealt_zero] }
      rw [hrun]
      exact hsecond l hshared (by omega) hall
    · rw [hrun]
      exact .inr ⟨l, rfl, h.adapter, by omega, halloc⟩
  · have hfirst : a.firstShared = 0 := if_neg hmany
    rw [if_neg hmany]
    have hshared : a.loop.Shared a := by
      constructor <;> simp [loop, hfirst, VectorAdapter.placed]
    exact hsecond a.loop hshared (Nat.zero_le _) nofun

theorem allocQVectors_cases (alloc : ℕ → Bool) (a : VectorAdapter) :
    (allocQVectors alloc a = (success, a.placed a.numQVectors) ∧
        ∀ v < a.numQVectors, alloc v = true) ∨
      ∃ l, allocQVectorsLoops alloc a = .error l ∧ l.adapter = a.placed l.vIdx ∧
        l.vIdx < a.numQVectors ∧ alloc l.vIdx = false ∧
        allocQVectors alloc a = (eNoMem, allocQVectorsErr l) := by
  unfold allocQVectors
  rcases allocQVectorsLoops_cases alloc a with ⟨l, hrun, hl, hall⟩ | ⟨l, hrun, hl, hv, halloc⟩
  · rw [hrun]
    exact .inl ⟨by rw [← hl], hall⟩
  · rw [hrun]
    exact .inr ⟨l, rfl, hl, hv, halloc, rfl⟩

/-! ## Placing and freeing vectors -/

theorem VectorAdapter.qVector_placed (a : VectorAdapter) (m v : ℕ) :
    (a.placed m).qVector v = if v < m then some (a.rings v) else a.qVector v := by
  induction m with
  | zero => rfl
  | succ m ih =>
    change update (a.placed m).qVector m (some (a.rings m)) v = _
    by_cases hv : v = m
    · rw [hv, update_self, if_pos (Nat.lt_succ_self m)]
    · rw [update_of_ne hv, ih]
      exact if_congr (by omega) rfl rfl

theorem VectorAdapter.ring_place (a : VectorAdapter) (v : ℕ) (qv : VectorRings) (k : RingKind)
    (i : ℕ) : (a.place v qv).ring k i = if i ∈ qv.of k then some v else a.ring k i := by
  cases k <;> rfl

theorem VectorAdapter.ring_placed_of_not_mem {k : RingKind}
    (h : ∀ v < m, i ∉ (a.rings v).of k) : (a.placed m).ring k i = a.ring k i := by
  induction m with
  | zero => rfl
  | succ m ih =>
    rw [placed, ring_place, if_neg (h m (Nat.lt_succ_self m)),
      ih fun v hv => h v (Nat.lt_succ_of_lt hv)]

theorem VectorAdapter.ring_placed {k : RingKind} (hv : v < m)
    (hin : i ∈ (a.rings v).of k) (huniq : ∀ w < m, i ∈ (a.rings w).of k → w = v) :
    (a.placed m).ring k i = some v := by
  induction m with
  | zero => exact absurd hv (Nat.not_lt_zero v)
  | succ m ih =>
    rw [placed, ring_place]
    by_cases hm : i ∈ (a.rings m).of k
    · rw [if_pos hm, huniq m (Nat.lt_succ_self m) hm]
    · have hne : v ≠ m := fun hEq => hm (hEq ▸ hin)
      rw [if_neg hm, ih (by omega) fun w hw => huniq w (Nat.lt_succ_of_lt hw)]

theorem freeQVector_eq {qv : VectorRings} (h : a.qVector v = some qv) :
    (freeQVector a v).qVector = update a.qVector v none ∧
      ∀ k i, (freeQVector a v).ring k i = if i ∈ qv.of k then none else a.ring k i := by
  unfold freeQVector
  rw [h]
  exact ⟨rfl, fun k i => by cases k <;> exact clearRings_apply _ _ i⟩

theorem freeQVectorsBelow_spec {rings : ℕ → VectorRings} {a : VectorAdapter}
    (h : ∀ v < m, a.qVector v = some (rings v)) :
    (∀ v, (freeQVectorsBelow m a).qVector v = if v < m then none else a.qVector v) ∧
      ∀ k i, ((∃ v < m, i ∈ (rings v).of k) → (freeQVectorsBelow m a).ring k i = none) ∧
        ((∀ v < m, i ∉ (rings v).of k) → (freeQVectorsBelow m a).ring k i = a.ring k i) := by
  induction m generalizing a with
  | zero =>
    exact ⟨fun _ => rfl,
      fun _ _ => ⟨fun ⟨v, hv, _⟩ => absurd hv (Nat.not_lt_zero v), fun _ => rfl⟩⟩
  | succ m ih =>
    obtain ⟨hvec, hring⟩ := freeQVector_eq (h m (Nat.lt_succ_self m))
    obtain ⟨ihvec, ihring⟩ := ih (a := freeQVector a m) fun v hv => by
      rw [hvec, update_of_ne (Nat.ne_of_lt hv), h v (Nat.lt_succ_of_lt hv)]
    rw [freeQVectorsBelow]
    refine ⟨fun v => ?_, fun k i => ⟨?_, fun hnone => ?_⟩⟩
    · rw [ihvec, hvec]
      by_cases hv : v = m
      · rw [hv, update_self, if_neg (Nat.lt_irrefl m), if_pos (Nat.lt_succ_self m)]
      · rw [update_of_ne hv]
        exact if_congr (by omega) rfl rfl
    · rintro ⟨v, hv, hin⟩
      by_cases hlow : ∃ w < m, i ∈ (rings w).of k
      · exact (ihring k i).1 hlow
      · -- only the last vector has it, which is freed first
        have hm : v = m := by
          by_contra hne
          exact hlow ⟨v, by omega, hin⟩
        rw [(ihring k i).2 fun w hw hmem => hlow ⟨w, hw, hmem⟩, hring, if_pos (hm ▸ hin)]
    · rw [(ihring k i).2 fun w hw => hnone w (Nat.lt_succ_of_lt hw), hring,
        if_neg (hnone m (Nat.lt_succ_self m))]

/-! ## The partition -/

theorem VectorAdapter.deals (a : VectorAdapter) (hq : 1 ≤ a.numQVectors) (k : RingKind) :
    Deals (a.numQueues k) a.numQVectors fun v => (a.rings v).of k := by
  have hle : a.firstShared ≤ a.numQVectors := by
    unfold firstShared
    split <;> omega
  have hbefore : ∀ v < a.firstShared, a.rings v = { tx := [], xdp := [], rx := [v] } :=
    fun v hv => if_pos hv
  have hafter : ∀ v, a.firstShared ≤ v → a.rings v = _ :=
    fun v hv => if_neg (Nat.not_lt.mpr hv)
  by_cases hmany : a.numQVectors ≥ a.numRxQueues + a.numTxQueues + a.numXdpQueues
  · -- no vector has two rings of a kind
    have hfirst : a.firstShared = a.numRxQueues := if_pos hmany
    cases k with
    | rx =>
      have hmem : ∀ v i, i ∈ (a.rings v).rx ↔ i < a.numRxQueues ∧ i = v := by
        intro v i
        rcases Nat.lt_or_ge v a.firstShared with hv | hv
        · rw [hbefore v hv, mem_singleton]
          omega
        · rw [hafter v hv, hfirst, Nat.sub_self, share_zero]
          exact ⟨fun h => absurd h not_mem_nil, fun h => by omega⟩
      refine deals_of_home id (fun i hi => ?_) (fun v _ i => hmem v i) fun v _ => ?_
      · change i < _
        change i < a.numRxQueues at hi
        omega
      · change (a.rings v).rx.Nodup
        rcases Nat.lt_or_ge v a.firstShared with hv | hv
        · rw [hbefore v hv]
          exact nodup_singleton v
        · rw [hafter v hv]
          exact nodup_strided hq _ _
    | tx =>
      refine (deals_strided (.inl ?_) hq fun hne => ?_).after hle
        (fun v hv => by rw [hbefore v hv]; rfl) fun v hv => by rw [hafter v hv]; rfl
      · change a.numTxQueues ≤ _
        omega
      · change a.numTxQueues ≠ 0 at hne
        omega
    | xdp =>
      refine (deals_inOrder fun hne => ?_).after hle
        (fun v hv => by rw [hbefore v hv]; rfl) fun v hv => by rw [hafter v hv]; rfl
      change a.numXdpQueues ≠ 0 at hne
      omega
  · have hfirst : a.firstShared = 0 := if_neg hmany
    have hrings : ∀ v, a.rings v = _ := fun v => hafter v (by omega)
    simp only [hfirst, Nat.sub_zero] at hrings
    cases k with
    | rx =>
      simp only [hrings]
      exact deals_strided (.inr rfl) hq fun _ => hq
    | tx =>
      simp only [hrings]
      exact deals_strided (.inr rfl) hq fun _ => hq
    | xdp =>
      simp only [hrings]
      exact deals_inOrder fun _ => hq

def VectorAdapter.Serves (a : VectorAdapter) (k : RingKind) (v i : ℕ) : Prop :=
  ∃ qv, a.qVector v = some qv ∧ i ∈ qv.of k

/-- **The vectors of `a'` partition the rings of `a`**, the adapter before the allocation. -/
structure VectorAdapter.Partitioned (a a' : VectorAdapter) : Prop where
  allocated : ∀ v < a.numQVectors, ∃ qv, a'.qVector v = some qv ∧ ∀ k, (qv.of k).Nodup
  unique : ∀ k, ∀ i < a.numQueues k, ∃! v, v < a.numQVectors ∧ a'.Serves k v i
  served : ∀ k v i, v < a.numQVectors → a'.Serves k v i →
    i < a.numQueues k ∧ a'.ring k i = some v
  qVector_above : ∀ v, a.numQVectors ≤ v → a'.qVector v = a.qVector v
  ring_above : ∀ k i, a.numQueues k ≤ i → a'.ring k i = a.ring k i
  /-- The vectors of the second loop have almost equally many rings. -/
  balanced : ∀ k v w qv qw, a.firstShared ≤ v → v < a.numQVectors → a.firstShared ≤ w →
    w < a.numQVectors → a'.qVector v = some qv → a'.qVector w = some qw →
      (qv.of k).length ≤ (qw.of k).length + 1

/-- `l` holds the variables at `err_out`, when the vectors below `l.vIdx` are set. -/
structure VectorAdapter.Unwound (a : VectorAdapter) (l : VectorLoop) (a' : VectorAdapter) :
    Prop where
  qVector : ∀ v < l.vIdx, a'.qVector v = none
  ring : ∀ k v i, v < l.vIdx → l.adapter.Serves k v i → a'.ring k i = none
  qVector_above : ∀ v, l.vIdx ≤ v → a'.qVector v = a.qVector v
  ring_other : ∀ k i, (∀ v < l.vIdx, ¬ l.adapter.Serves k v i) → a'.ring k i = a.ring k i
  numQVectors : a'.numQVectors = 0
  numQueues : ∀ k, a'.numQueues k = 0

theorem VectorAdapter.serves_placed (hv : v < m) (k : RingKind)
    (i : ℕ) : (a.placed m).Serves k v i ↔ i ∈ (a.rings v).of k := by
  unfold VectorAdapter.Serves
  rw [qVector_placed, if_pos hv]
  exact ⟨fun ⟨_, hEq, hin⟩ => Option.some.inj hEq ▸ hin, fun hin => ⟨_, rfl, hin⟩⟩

theorem VectorAdapter.length_rings_le (a : VectorAdapter) {w : ℕ} (hv : a.firstShared ≤ v)
    (hw : a.firstShared ≤ w) (k : RingKind) :
    ((a.rings v).of k).length ≤ ((a.rings w).of k).length + 1 := by
  have hrings : ∀ u, a.firstShared ≤ u → a.rings u = _ := fun u hu => if_neg (Nat.not_lt.mpr hu)
  rw [hrings v hv, hrings w hw]
  cases k <;> simp only [VectorRings.of, length_strided] <;> exact share_le_share _ _ _ _

theorem VectorAdapter.partitioned_placed (a : VectorAdapter) (hq : 1 ≤ a.numQVectors) :
    a.Partitioned (a.placed a.numQVectors) where
  allocated := fun v hv => ⟨a.rings v, by rw [qVector_placed, if_pos hv],
    fun k => (a.deals hq k).nodup v hv⟩
  unique := fun k i hi => by
    obtain ⟨v, ⟨hv, hin⟩, huniq⟩ := (a.deals hq k).unique i hi
    exact ⟨v, ⟨hv, (serves_placed hv k i).mpr hin⟩,
      fun w ⟨hw, hserves⟩ => huniq w ⟨hw, (serves_placed hw k i).mp hserves⟩⟩
  served := fun k v i hv hserves => by
    have hin := (serves_placed hv k i).mp hserves
    have hi := (a.deals hq k).lt v hv i hin
    exact ⟨hi, ring_placed hv hin fun w hw hmem =>
      ((a.deals hq k).unique i hi).unique ⟨hw, hmem⟩ ⟨hv, hin⟩⟩
  qVector_above := fun v hv => by rw [qVector_placed, if_neg (Nat.not_lt.mpr hv)]
  ring_above := fun k i hi => ring_placed_of_not_mem fun v hv hin =>
    Nat.not_lt.mpr hi ((a.deals hq k).lt v hv i hin)
  balanced := fun k v w qv qw hfv hv hfw hw hqv hqw => by
    rw [qVector_placed, if_pos hv, Option.some.injEq] at hqv
    rw [qVector_placed, if_pos hw, Option.some.injEq] at hqw
    subst hqv hqw
    exact a.length_rings_le hfv hfw k

theorem VectorAdapter.Partitioned.ring_isSome_iff {a a' : VectorAdapter} (h : a.Partitioned a')
    (k : RingKind) (hnone : a.ring k i = none) :
    (a'.ring k i).isSome = true ↔ i < a.numQueues k := by
  refine ⟨fun hsome => ?_, fun hi => ?_⟩
  · by_contra hge
    rw [h.ring_above k i (Nat.not_lt.mp hge), hnone] at hsome
    cases hsome
  · obtain ⟨v, ⟨hv, hserves⟩, -⟩ := h.unique k i hi
    rw [(h.served k v i hv hserves).2]
    rfl

theorem VectorAdapter.unwound_err
    (hl : l.adapter = a.placed l.vIdx) : a.Unwound l (allocQVectorsErr l) := by
  have hset : ∀ v < l.vIdx, l.adapter.qVector v = some (a.rings v) := fun v hv => by
    rw [hl, qVector_placed, if_pos hv]
  obtain ⟨hvec, hring⟩ := freeQVectorsBelow_spec (a := { l.adapter with
    numTxQueues := 0, numXdpQueues := 0, numRxQueues := 0, numQVectors := 0 }) hset
  have hserves : ∀ k v i, v < l.vIdx → (l.adapter.Serves k v i ↔ i ∈ (a.rings v).of k) :=
    fun k v i hv => by rw [hl, serves_placed hv]
  have hcounts : ∀ m b, (freeQVectorsBelow m b).numQVectors = b.numQVectors ∧
      ∀ k, (freeQVectorsBelow m b).numQueues k = b.numQueues k := by
    intro m
    induction m with
    | zero => exact fun _ => ⟨rfl, fun _ => rfl⟩
    | succ m ih =>
      intro b
      rw [freeQVectorsBelow, (ih _).1]
      simp only [(ih _).2]
      unfold freeQVector
      cases b.qVector m <;> exact ⟨rfl, fun k => by cases k <;> rfl⟩
  constructor
  case qVector => exact fun v hv => by rw [allocQVectorsErr, hvec, if_pos hv]
  case ring => exact fun k v i hv h => (hring k i).1 ⟨v, hv, (hserves k v i hv).mp h⟩
  case qVector_above =>
    intro v hv
    rw [allocQVectorsErr, hvec, if_neg (Nat.not_lt.mpr hv)]
    rw [hl, qVector_placed, if_neg (Nat.not_lt.mpr hv)]
  case ring_other =>
    intro k i hnone
    have hnot : ∀ v < l.vIdx, i ∉ (a.rings v).of k :=
      fun v hv hin => hnone v hv ((hserves k v i hv).mpr hin)
    rw [allocQVectorsErr, (hring k i).2 hnot, ← ring_placed_of_not_mem hnot, ← hl]
    cases k <;> rfl
  case numQVectors => exact (hcounts _ _).1
  case numQueues => exact fun k => by rw [allocQVectorsErr, (hcounts _ _).2]; cases k <;> rfl

end

def freshVectors (q R T X : ℕ) : VectorAdapter where
  numQVectors := q
  numRxQueues := R
  numTxQueues := T
  numXdpQueues := X
  qVector := fun _ => none
  rxRing := fun _ => none
  txRing := fun _ => none
  xdpRing := fun _ => none

/-- **Queue vectors partition the rings**: each ring below the three counts is with exactly one
vector; where a vector gets no memory, all is taken back. -/
theorem allocQVectors_partition (alloc : ℕ → Bool) (a : VectorAdapter) (hq : 1 ≤ a.numQVectors) :
    ((∀ v < a.numQVectors, alloc v = true) → (allocQVectors alloc a).1 = success ∧
      a.Partitioned (allocQVectors alloc a).2) ∧
    ((∃ v < a.numQVectors, alloc v = false) → (allocQVectors alloc a).1 = eNoMem ∧
      ∃ l, allocQVectorsLoops alloc a = .error l ∧ a.Unwound l (allocQVectors alloc a).2) := by
  rcases allocQVectors_cases alloc a with ⟨hrun, hall⟩ | ⟨l, hloops, hl, hv, halloc, hrun⟩
  · rw [hrun]
    refine ⟨fun _ => ⟨rfl, a.partitioned_placed hq⟩, ?_⟩
    rintro ⟨v, hv, hnone⟩
    rw [hall v hv] at hnone
    cases hnone
  · rw [hrun]
    refine ⟨fun hall => ?_, fun _ => ⟨rfl, l, hloops, VectorAdapter.unwound_err hl⟩⟩
    rw [hall l.vIdx hv] at halloc
    cases halloc

theorem allocQVectors_partition_three :
    let a := freshVectors 3 2 5 1
    a.Partitioned (allocQVectors (fun _ => true) a).2 ∧
      (allocQVectors (fun v => decide (v < 2)) a).1 = eNoMem :=
  ⟨((allocQVectors_partition (fun _ => true) (freshVectors 3 2 5 1) (by decide)).1
      fun _ _ => rfl).2,
    ((allocQVectors_partition (fun v => decide (v < 2)) (freshVectors 3 2 5 1) (by decide)).2
      ⟨2, by decide, rfl⟩).1⟩

/-! ## Sharing a NAPI context -/

theorem allocQVectors_shared {alloc : ℕ → Bool} {a : VectorAdapter} (hq : 1 ≤ a.numQVectors)
    (hlt : a.numQVectors < a.numRxQueues + a.numTxQueues + a.numXdpQueues)
    (hok : (allocQVectors alloc a).1 = success) :
    (∀ i < a.numRxQueues, (allocQVectors alloc a).2.rxRing i = some (i % a.numQVectors)) ∧
      (∀ i < a.numTxQueues, (allocQVectors alloc a).2.txRing i = some (i % a.numQVectors)) ∧
      ∀ v < a.numQVectors, ∀ i, dealt a.numXdpQueues a.numQVectors v ≤ i →
        i < dealt a.numXdpQueues a.numQVectors (v + 1) →
          (allocQVectors alloc a).2.xdpRing i = some v := by
  have hfirst : a.firstShared = 0 := if_neg (Nat.not_le.mpr hlt)
  have hrings : ∀ v, a.rings v = _ := fun v => if_neg (by omega)
  simp only [hfirst, Nat.sub_zero] at hrings
  rcases allocQVectors_cases alloc a with ⟨hrun, -⟩ | ⟨l, -, -, -, -, hrun⟩
  · have hring : ∀ k v i, v < a.numQVectors → i ∈ (a.rings v).of k →
        (a.placed a.numQVectors).ring k i = some v := fun k v i hv hin =>
      ((a.partitioned_placed hq).served k v i hv
        ((serves_placed hv k i).mpr hin)).2
    have hmod : ∀ i, i % a.numQVectors < a.numQVectors := fun i => Nat.mod_lt i hq
    rw [hrun]
    refine ⟨fun i hi => hring .rx _ i (hmod i) ?_, fun i hi => hring .tx _ i (hmod i) ?_,
      fun v hv i hlo hhi => hring .xdp v i hv ?_⟩
    · rw [hrings]
      exact (mem_strided_share (.inr rfl) (hmod i)).mpr ⟨hi, rfl⟩
    · rw [hrings]
      exact (mem_strided_share (.inr rfl) (hmod i)).mpr ⟨hi, rfl⟩
    · rw [hrings]
      exact mem_strided_dealt.mpr ⟨hlo, hhi⟩
  · rw [hrun] at hok
    exact absurd hok (show eNoMem ≠ success by decide)

/-- **The rings of an index share a vector**, as `ixgbe_txrx_ring_disable` relies on. -/
def ShareContext (R T X : ℕ) (a : VectorAdapter) : Prop :=
  ∀ i < min R (min T X), ∃ v, a.rxRing i = some v ∧ a.txRing i = some v ∧ a.xdpRing i = some v

/-- **Rings of one index share a NAPI context if and only if** there is one vector, or no more XDP
rings than vectors, or only one index with all three rings. -/
theorem shareContext_iff (alloc : ℕ → Bool) (a : VectorAdapter) (hq : 1 ≤ a.numQVectors)
    (hlt : a.numQVectors < a.numRxQueues + a.numTxQueues + a.numXdpQueues)
    (hok : (allocQVectors alloc a).1 = success) :
    ShareContext a.numRxQueues a.numTxQueues a.numXdpQueues (allocQVectors alloc a).2 ↔
      a.numQVectors = 1 ∨ a.numXdpQueues ≤ a.numQVectors ∨
        min a.numRxQueues a.numTxQueues ≤ 1 := by
  obtain ⟨hrx, htx, hxdp⟩ := allocQVectors_shared hq hlt hok
  constructor
  · intro h
    by_contra hcond
    push Not at hcond
    obtain ⟨hone, hmore, htwo⟩ := hcond
    -- ring 1: the second vector has the Rx ring, the first one the XDP ring
    obtain ⟨v, hv, -, hx⟩ := h 1 (by omega)
    rw [hrx 1 (by omega), Nat.mod_eq_of_lt (by omega)] at hv
    rw [hxdp 0 (by omega) 1 (by rw [dealt_zero]; omega) (hand_one hq hmore), ← hv] at hx
    exact absurd hx (by decide)
  · intro hcond i hi
    have hmod : i % a.numQVectors < a.numQVectors := Nat.mod_lt _ hq
    refine ⟨i % a.numQVectors, hrx i (by omega), htx i (by omega), ?_⟩
    -- the XDP ring of the index is in the share of the vector of the index modulo `q`
    suffices hhand : dealt a.numXdpQueues a.numQVectors (i % a.numQVectors) ≤ i ∧
        i < dealt a.numXdpQueues a.numQVectors (i % a.numQVectors + 1) from
      hxdp _ hmod i hhand.1 hhand.2
    rcases hcond with hone | hfew | hsingle
    · rw [hone, Nat.mod_one, dealt_zero, Nat.zero_add, dealt_self Nat.one_pos]
      omega
    · rw [Nat.mod_eq_of_lt (by omega)]
      exact hand_of_le hfew (by omega)
    · have hzero : i = 0 := by omega
      subst hzero
      rw [Nat.zero_mod, dealt_zero, Nat.zero_add]
      exact ⟨le_rfl, hand_zero hq (by omega)⟩

theorem shareContext_four :
    (allocQVectors (fun _ => true) (freshVectors 4 4 4 4)).1 = success ∧
      ShareContext 4 4 4 (allocQVectors (fun _ => true) (freshVectors 4 4 4 4)).2 :=
  ⟨by decide, (shareContext_iff (fun _ => true) (freshVectors 4 4 4 4) (by decide) (by decide)
    (by decide)).mpr (by decide)⟩

/-- XDP ring 1 is polled with the first of two vectors, the Rx and Tx rings 1 with the second. -/
theorem not_shareContext_more_xdp :
    let r := allocQVectors (fun _ => true) (freshVectors 2 2 2 4)
    r.1 = success ∧ r.2.rxRing 1 = some 1 ∧ r.2.txRing 1 = some 1 ∧ r.2.xdpRing 1 = some 0 ∧
      ¬ ShareContext 2 2 4 r.2 := by
  refine ⟨by decide, by decide, by decide, by decide, fun h => ?_⟩
  obtain ⟨v, hv, -, hx⟩ := h 1 (by decide)
  rw [show (allocQVectors (fun _ => true) (freshVectors 2 2 2 4)).2.xdpRing 1 = some 0 by decide,
    ← hv] at hx
  exact absurd hx (by decide)

end Ixgbe
