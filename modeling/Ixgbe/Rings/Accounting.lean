import Mathlib.Tactic.Abel
import Ixgbe.Rings.Memory
import Ixgbe.Tx.Map

/-! # Whose memory it is

Every block is owned by one ring or was freed once, but if the registration of a receive ring fails,
its descriptors are lost. -/

namespace Ixgbe

open List Bool

/-- The blocks `new` were allocated and the blocks `gone` freed. -/
structure Moves (m m' : RingMem) (new gone : Multiset Block) : Prop where
  allocs : (m'.allocs : Multiset Block) = new + m.allocs
  frees : (m'.frees : Multiset Block) = gone + m.frees
  numbered : Numbered m.allocs → Numbered m'.allocs

section

variable {m m' m'' : RingMem} {new new' gone gone' : Multiset Block}

theorem Moves.refl (m : RingMem) : Moves m m 0 0 :=
  ⟨(zero_add _).symm, (zero_add _).symm, id⟩

theorem Moves.trans (h : Moves m m' new gone) (h' : Moves m' m'' new' gone') :
    Moves m m'' (new' + new) (gone' + gone) := by
  refine ⟨?_, ?_, h'.numbered ∘ h.numbered⟩
  · rw [h'.allocs, h.allocs, add_assoc]
  · rw [h'.frees, h.frees, add_assoc]

/-- Of the blocks `before` and those allocated, all were freed but `after`, which somebody has, and
`lost`. -/
def Balance (m m' : RingMem) (before after lost : Multiset Block) : Prop :=
  ∃ new gone, Moves m m' new gone ∧ new + before = gone + after + lost

variable {a b l a' b' l' x y z : Multiset Block}

theorem Balance.refl (m : RingMem) (b : Multiset Block) : Balance m m b b 0 :=
  ⟨0, 0, Moves.refl m, (add_zero _).symm⟩

theorem Balance.seq (h : Balance m m' a b l) (h' : Balance m' m'' a' b' l')
    (heq : x + (b + b' + (l + l')) = y + z + (a + a')) : Balance m m'' x y z := by
  obtain ⟨new, gone, hm, hsum⟩ := h
  obtain ⟨new', gone', hm', hsum'⟩ := h'
  refine ⟨_, _, hm.trans hm', add_right_cancel (b := b + b' + (l + l')) ?_⟩
  calc new' + new + x + (b + b' + (l + l')) = new + a + (new' + a') + (y + z) := by
        rw [add_assoc, heq]
        abel
    _ = gone' + gone + y + z + (b + b' + (l + l')) := by
        rw [hsum, hsum']
        abel

theorem alloc_balance (m : RingMem) (size : ℕ) : ∃ i m',
    m.alloc true size = (some (i, size), m') ∧ Balance m m' 0 {(i, size)} 0 := by
  refine ⟨_, _, rfl, {(m.allocs.length, size)}, 0,
    ⟨?_, (zero_add _).symm, fun h => h.cons size⟩, by abel⟩
  rfl

theorem allocNode_balance (m : RingMem) {node anywhere : Bool} (size : ℕ)
    (h : (node || anywhere) = true) : ∃ i m',
    m.allocNode node anywhere size = (some (i, size), m') ∧ Balance m m' 0 {(i, size)} 0 := by
  obtain ⟨i, m', heq, hm⟩ := alloc_balance m size
  refine ⟨i, m', ?_, hm⟩
  cases node with
  | true => rw [RingMem.allocNode, heq]
  | false =>
    obtain rfl : anywhere = true := h
    exact heq

theorem allocNode_none (m : RingMem) {node anywhere : Bool} (size : ℕ)
    (h : ¬ (node || anywhere) = true) : m.allocNode node anywhere size = (none, m) := by
  obtain ⟨rfl, rfl⟩ := or_eq_false_iff.mp (eq_false_iff.mpr h)
  rfl

theorem vfree_balance (m : RingMem) (b : Block) : Balance m (m.vfree (some b)) {b} 0 0 := by
  refine ⟨0, {b}, ⟨(zero_add _).symm, ?_, id⟩, by abel⟩
  rfl

end

def MemRing.blocks (r : MemRing) : Multiset Block :=
  (r.bufferInfo.toList : Multiset Block) + (r.desc.toList : Multiset Block)

/-- **A buffer array and a descriptor block, of the sizes for its count.** -/
structure MemRing.Owns (r : MemRing) (bufSize : ℕ) : Prop where
  bufferInfo : ∃ i, r.bufferInfo = some (i, bufSize * r.count)
  desc : ∃ i, r.desc = some (i, alignUp (r.count * 16) 4096)
  size : r.size = alignUp (r.count * 16) 4096

def RingEnv.memOk (env : RingEnv) : Bool :=
  (env.bufNode || env.buf) && (env.descNode || env.desc)

def RingEnv.ok (rx : Bool) (env : RingEnv) : Bool := env.memOk && (!rx || env.rxq)

def RingEnv.rxqFails (rx : Bool) (env : RingEnv) : Bool := env.memOk && (rx && !env.rxq)

section

variable {bufSize : ℕ} {env : RingEnv} {r : MemRing}

theorem MemRing.Owns.blocks (h : r.Owns bufSize) : ∃ b d, r.bufferInfo = some b ∧ r.desc = some d ∧
    d.2 = r.size ∧ r.blocks = {b} + {d} := by
  obtain ⟨⟨i, hbuf⟩, ⟨j, hdesc⟩, hsize⟩ := h
  refine ⟨_, _, hbuf, hdesc, hsize.symm, ?_⟩
  rw [MemRing.blocks, hbuf, hdesc]
  rfl

variable (bufSize env) in
theorem setupMemory_spec (r : MemRing) (m : RingMem) : ∃ r' m',
    setupMemory bufSize env r m = (env.memOk, r', m') ∧ (env.memOk = true → r'.Owns bufSize) ∧
      Balance m m' 0 (if env.memOk then r'.blocks else 0) 0 := by
  rw [setupMemory, RingEnv.memOk]
  by_cases hbuf : (env.bufNode || env.buf) = true
  · obtain ⟨i, m1, heq1, hb1⟩ := allocNode_balance m (bufSize * r.count) hbuf
    rw [heq1, hbuf]
    dsimp only
    by_cases hdesc : (env.descNode || env.desc) = true
    · obtain ⟨j, m2, heq2, hb2⟩ := allocNode_balance m1 (alignUp (r.count * 16) 4096) hdesc
      rw [heq2, hdesc]
      refine ⟨_, m2, rfl, fun _ => ⟨⟨i, rfl⟩, ⟨j, rfl⟩, rfl⟩, hb1.seq hb2 ?_⟩
      abel
    · rw [allocNode_none m1 _ hdesc, eq_false_iff.mpr hdesc]
      exact ⟨_, _, rfl, nofun, hb1.seq (vfree_balance m1 _) (by simp)⟩
  · rw [allocNode_none m _ hbuf, eq_false_iff.mpr hbuf]
    exact ⟨_, m, rfl, nofun, Balance.refl m 0⟩

variable (bufSize env) in
theorem setupResources_spec (rx : Bool) (r : MemRing) (m : RingMem) : ∃ r' m' lost,
    setupResources rx bufSize env r m = (env.ok rx, r', m') ∧
      (env.ok rx = true → r'.Owns bufSize) ∧
      Balance m m' 0 (if env.ok rx then r'.blocks else 0) lost ∧
      (lost = 0 ↔ env.rxqFails rx = false) := by
  obtain ⟨r', m', heq, howns, hb⟩ := setupMemory_spec bufSize env r m
  rw [setupResources, heq, RingEnv.ok, RingEnv.rxqFails]
  cases hmem : env.memOk with
  | false =>
    rw [hmem] at hb
    exact ⟨r', m', 0, rfl, nofun, hb, by simp⟩
  | true =>
    rw [hmem] at hb
    have howns := howns hmem
    cases rx with
    | false => exact ⟨r', m', 0, rfl, fun _ => howns, hb, by simp⟩
    | true =>
      cases env.rxq with
      | true =>
        exact ⟨_, m', 0, rfl, fun _ => { howns with }, hb, by simp⟩
      | false =>
        obtain ⟨b, d, hbuf, -, -, hblocks⟩ := howns.blocks
        refine ⟨_, _, {d}, rfl, nofun, hb.seq (hbuf ▸ vfree_balance m' b) ?_, by simp⟩
        rw [if_pos rfl, hblocks]
        simp [add_comm]

theorem freeResources_balance (rx : Bool) (h : r.Owns bufSize) (m : RingMem) :
    Balance m (freeResources rx r m).2 r.blocks 0 0 := by
  obtain ⟨b, d, hbuf, hdesc, hsize, hblocks⟩ := h.blocks
  have hfree : (freeResources rx r m).2 = (m.vfree (some b)).vfree (some d) := by
    simp only [freeResources, hbuf, hdesc, ← hsize]
    rfl
  rw [hfree, hblocks]
  exact (vfree_balance m b).seq (vfree_balance _ d) (by simp)

end

def blocksOf (rs : List MemRing) : Multiset Block := (rs.map MemRing.blocks).sum

@[simp] theorem blocksOf_nil : blocksOf [] = 0 := rfl

@[simp] theorem blocksOf_cons (r : MemRing) (rs : List MemRing) :
    blocksOf (r :: rs) = r.blocks + blocksOf rs := by
  rfl

theorem blocksOf_append (rs rs' : List MemRing) :
    blocksOf (rs ++ rs') = blocksOf rs + blocksOf rs' := by
  rw [blocksOf, map_append, sum_append]
  rfl

theorem blocksOf_reverse (rs : List MemRing) : blocksOf rs.reverse = blocksOf rs := by
  rw [blocksOf, map_reverse, sum_reverse]
  rfl

inductive SetupEnd
  | ok
  | failed
  | lost
  deriving DecidableEq, Repr

def setupEnd (rx : Bool) : (ℕ → RingEnv) → ℕ → SetupEnd
  | _, 0 => .ok
  | env, n + 1 =>
    if (env 0).rxqFails rx then .lost
    else if (env 0).ok rx then setupEnd rx (fun i => env (i + 1)) n
    else .failed

def AllOk (rx : Bool) (env : ℕ → RingEnv) (n : ℕ) : Prop := ∀ i < n, (env i).ok rx = true

/-- **The first step that fails is the registration of a ring.** -/
def RxqFirst (env : ℕ → RingEnv) (n : ℕ) : Prop :=
  ∃ i < n, (∀ j < i, (env j).ok true = true) ∧ (env i).rxqFails true = true

theorem ok_of_rxqFails {rx : Bool} {env : RingEnv} (h : env.rxqFails rx = true) :
    env.ok rx = false := by
  rw [RingEnv.rxqFails] at h
  rw [RingEnv.ok]
  revert h
  cases env.memOk <;> cases rx <;> cases env.rxq <;> decide

theorem setupEnd_eq_ok_iff {rx : Bool} {env : ℕ → RingEnv} {n : ℕ} :
    setupEnd rx env n = .ok ↔ AllOk rx env n := by
  induction n generalizing env with
  | zero => exact ⟨fun _ i hi => absurd hi (Nat.not_lt_zero i), fun _ => rfl⟩
  | succ n ih =>
    have hsplit : AllOk rx env (n + 1) ↔
        (env 0).ok rx = true ∧ AllOk rx (fun i => env (i + 1)) n := Nat.forall_lt_succ_left
    rw [setupEnd, hsplit, ← ih]
    split
    case isTrue hlost =>
      rw [ok_of_rxqFails hlost]
      exact ⟨nofun, nofun⟩
    · split
      case isTrue hok =>
        exact (and_iff_right hok).symm
      case isFalse hok =>
        exact ⟨nofun, fun h => absurd h.1 hok⟩

theorem setupEnd_eq_lost_iff {env : ℕ → RingEnv} {n : ℕ} :
    setupEnd true env n = .lost ↔ RxqFirst env n := by
  induction n generalizing env with
  | zero => exact ⟨nofun, fun ⟨i, hi, _⟩ => absurd hi (Nat.not_lt_zero i)⟩
  | succ n ih =>
    have hsplit : RxqFirst env (n + 1) ↔ (env 0).rxqFails true = true ∨
        ((env 0).ok true = true ∧ RxqFirst (fun i => env (i + 1)) n) := by
      rw [RxqFirst, Nat.exists_lt_succ_left]
      refine or_congr (by simp) ⟨?_, ?_⟩
      · rintro ⟨i, hi, hbefore, hlost⟩
        obtain ⟨h0, hrest⟩ := Nat.forall_lt_succ_left.mp hbefore
        exact ⟨h0, i, hi, hrest, hlost⟩
      · rintro ⟨h0, i, hi, hrest, hlost⟩
        exact ⟨i, hi, Nat.forall_lt_succ_left.mpr ⟨h0, hrest⟩, hlost⟩
    rw [setupEnd, hsplit, ← ih]
    split
    case isTrue hlost =>
      exact ⟨fun _ => .inl hlost, fun _ => rfl⟩
    case isFalse hlost =>
      split
      case isTrue hok =>
        exact ⟨fun h => .inr ⟨hok, h⟩, fun h => (h.resolve_left hlost).2⟩
      case isFalse hok =>
        exact ⟨nofun, fun h => absurd (h.resolve_left hlost).1 hok⟩

theorem setupEnd_tx_ne_lost (env : ℕ → RingEnv) (n : ℕ) : setupEnd false env n ≠ .lost := by
  induction n generalizing env with
  | zero => exact nofun
  | succ n ih =>
    rw [setupEnd, RingEnv.rxqFails, Bool.false_and, Bool.and_false, if_neg Bool.false_ne_true]
    split
    · exact ih _
    · exact nofun

section

variable {bufSize : ℕ}

theorem freeRings_balance (rx : Bool) {rs : List MemRing} (h : ∀ r ∈ rs, r.Owns bufSize)
    (m : RingMem) : Balance m (freeRings (freeResources rx) rs m).2 (blocksOf rs) 0 0 := by
  induction rs generalizing m with
  | nil => exact Balance.refl m 0
  | cons r rs ih =>
    have hfirst := freeResources_balance rx (h r (mem_cons_self ..)) m
    have hrest := ih (fun r' hr' => h r' (mem_cons_of_mem _ hr')) (freeResources rx r m).2
    exact hfirst.seq hrest (by simp)

/-- **The loops that set up rings**: all are set up, or all given back but the descriptors of the
ring whose registration failed. -/
theorem setupRings_spec (bufSize : ℕ) (rx : Bool) (env : ℕ → RingEnv) (rs done : List MemRing)
    (hdone : ∀ r ∈ done, r.Owns bufSize) (m : RingMem) : ∃ ok rs' m' lost,
    setupRings (setupResources rx bufSize) (freeResources rx) env done rs m = (ok, rs', m') ∧
      (ok = true ↔ setupEnd rx env rs.length = .ok) ∧ (ok = true → ∀ r ∈ rs', r.Owns bufSize) ∧
      Balance m m' (blocksOf done) (if ok then blocksOf rs' else 0) lost ∧
      (lost = 0 ↔ setupEnd rx env rs.length ≠ .lost) := by
  -- on the rings that are left; those done pass from the induction hypothesis to the account
  induction rs generalizing env done m with
  | nil =>
    refine ⟨true, done.reverse, m, 0, rfl, by simp [setupEnd],
      fun _ r hr => hdone r (mem_reverse.mp hr), ?_, by simp [setupEnd]⟩
    rw [if_pos rfl, blocksOf_reverse]
    exact Balance.refl m _
  | cons r rs ih =>
    obtain ⟨r', m', lost, heq, howns, hb, hlost⟩ := setupResources_spec bufSize (env 0) rx r m
    rw [setupRings, heq, length_cons, setupEnd]
    cases hok : (env 0).ok rx with
    | false =>
      rw [hok] at hb
      refine ⟨false, _, _, lost, rfl, ?_, nofun, hb.seq (freeRings_balance rx hdone m') ?_, ?_⟩
      · cases (env 0).rxqFails rx <;> simp
      · simp [add_comm]
      · rw [hlost]
        cases (env 0).rxqFails rx <;> simp
    | true =>
      rw [hok] at hb
      have hreg : (env 0).rxqFails rx = false :=
        eq_false_iff.mpr fun hreg => by simp [ok_of_rxqFails hreg] at hok
      have hzero := hlost.mpr hreg
      obtain ⟨ok, rs', m'', lost', heq', hall, howns', hb', hlost'⟩ := ih (fun i => env (i + 1))
        (r' :: done) (forall_mem_cons.mpr ⟨howns hok, hdone⟩) m'
      rw [if_neg (eq_false_iff.mp hreg), if_pos rfl]
      refine ⟨ok, rs', m'', lost', heq', hall, howns', hb.seq hb' ?_, hlost'⟩
      rw [if_pos rfl, blocksOf_cons, hzero]
      abel

end

/-- **Nothing of what was allocated is left.** -/
def Accounted (m m' : RingMem) : Prop := ∃ new, Moves m m' new new

theorem accounted_iff {m m' : RingMem} {lost : Multiset Block} (h : Balance m m' 0 0 lost) :
    Accounted m m' ↔ lost = 0 := by
  obtain ⟨new, gone, hm, hsum⟩ := h
  rw [add_zero, add_zero] at hsum
  constructor
  · rintro ⟨new', hm'⟩
    have hnew : new = new' := add_right_cancel (hm.allocs.symm.trans hm'.allocs)
    have hgone : gone = new' := add_right_cancel (hm.frees.symm.trans hm'.frees)
    rw [hnew, hgone] at hsum
    exact left_eq_add.mp hsum
  · rintro rfl
    rw [add_zero] at hsum
    exact ⟨gone, hsum ▸ hm⟩

theorem freeXdpRings_eq {bufSize : ℕ} {rs : List MemRing} (h : ∀ r ∈ rs, r.Owns bufSize)
    (m : RingMem) : freeXdpRings rs m = freeRings (freeResources false) rs m := by
  induction rs generalizing m with
  | nil => rfl
  | cons r rs ih =>
    obtain ⟨i, hdesc⟩ := (h r (mem_cons_self ..)).desc
    have hsome : r.desc.isSome = true := by
      rw [hdesc]
      rfl
    have hrest := ih (fun r' hr' => h r' (mem_cons_of_mem _ hr')) (freeTxResources r m).2
    rw [freeXdpRings, if_pos hsome]
    dsimp only
    rw [hrest]
    rfl

theorem freeAllTx_balance {bufSize : ℕ} {a : RingAdapter} (h : ∀ r ∈ a.tx ++ a.xdp, r.Owns bufSize)
    (m : RingMem) : Balance m (freeAllTxResources a m).2 (blocksOf (a.tx ++ a.xdp)) 0 0 := by
  have htx := freeRings_balance false (fun r hr => h r (mem_append_left _ hr)) m
  have hxdp := freeRings_balance false (fun r hr => h r (mem_append_right _ hr))
    (freeRings (freeResources false) a.tx m).2
  rw [← freeXdpRings_eq fun r hr => h r (mem_append_right _ hr)] at hxdp
  exact htx.seq hxdp (by simp [blocksOf_append])

theorem setTxXdp_rings (a : RingAdapter) (rs : List MemRing) :
    (a.setTxXdp rs).tx ++ (a.setTxXdp rs).xdp = rs := take_append_drop ..

theorem setupAllTx_spec (sz : RingSizes) (env : ℕ → RingEnv) (a : RingAdapter) (m : RingMem) :
    ∃ ok a' m', setupAllTxResources sz env a m = (ok, a', m') ∧ a'.rx = a.rx ∧
      (ok = true ↔ AllOk false env (a.tx.length + a.xdp.length)) ∧
      (ok = true → ∀ r ∈ a'.tx ++ a'.xdp, r.Owns sz.txBuffer) ∧
      Balance m m' 0 (if ok then blocksOf (a'.tx ++ a'.xdp) else 0) 0 := by
  obtain ⟨ok, rs', m', lost, heq, hall, howns, hb, hlost⟩ :=
    setupRings_spec sz.txBuffer false env (a.tx ++ a.xdp) [] nofun m
  rw [hlost.mpr (setupEnd_tx_ne_lost env _)] at hb
  rw [setupEnd_eq_ok_iff, length_append] at hall
  refine ⟨ok, a.setTxXdp rs', m', ?_, rfl, hall, ?_, ?_⟩
  · exact congrArg (fun x : Bool × List MemRing × RingMem => (x.1, a.setTxXdp x.2.1, x.2.2)) heq
  · rwa [setTxXdp_rings]
  · rwa [setTxXdp_rings]

theorem setupAllRx_spec (sz : RingSizes) (env : ℕ → RingEnv) (fcoe : ℤ) (a : RingAdapter)
    (m : RingMem) : ∃ err a' m' lost, setupAllRxResources sz env fcoe a m = (err, a', m') ∧
      a'.tx = a.tx ∧ a'.xdp = a.xdp ∧ (err = 0 → ∀ r ∈ a'.rx, r.Owns sz.rxBuffer) ∧
      Balance m m' 0 (if err = 0 then blocksOf a'.rx else 0) lost ∧
      (lost = 0 ↔ ¬ RxqFirst env a.rx.length) := by
  obtain ⟨ok, rs', m', lost, heq, -, howns, hb, hlost⟩ :=
    setupRings_spec sz.rxBuffer true env a.rx [] nofun m
  rw [ne_eq, setupEnd_eq_lost_iff] at hlost
  change setupRings (setupRxResources sz) freeRxResources env [] a.rx m = _ at heq
  rw [setupAllRxResources, heq]
  cases ok with
  | false => exact ⟨eNoMem, _, m', lost, rfl, rfl, rfl, fun h => absurd h (by decide), hb, hlost⟩
  | true =>
    have howns := howns rfl
    by_cases hfcoe : fcoe = 0
    · dsimp only
      rw [if_pos hfcoe]
      exact ⟨0, _, m', lost, rfl, rfl, rfl, fun _ => howns, hb, hlost⟩
    · -- all rings were set up and are rewound
      have hfree := freeRings_balance true (fun r hr => howns r (mem_reverse.mp hr)) m'
      rw [blocksOf_reverse] at hfree
      dsimp only
      rw [if_neg hfcoe]
      refine ⟨fcoe, _, _, lost, rfl, rfl, rfl, fun h => absurd h hfcoe, hb.seq hfree ?_, hlost⟩
      rw [if_neg hfcoe, if_pos rfl, blocksOf_nil]
      abel

def OpenEnv.RxqFails (env : OpenEnv) (a : RingAdapter) : Prop :=
  env.testing = false ∧ AllOk false env.tx (a.tx.length + a.xdp.length) ∧
    RxqFirst env.rx a.rx.length

theorem open_accounted_iff (sz : RingSizes) (env : OpenEnv) (a : RingAdapter) (m : RingMem)
    (herr : (ixgbeOpen sz env a m).1 ≠ 0) :
    Accounted m (ixgbeOpen sz env a m).2.2 ↔ ¬ env.RxqFails a := by
  rw [ixgbeOpen] at herr ⊢
  rw [OpenEnv.RxqFails]
  by_cases htest : env.testing = true
  · rw [if_pos htest, accounted_iff (Balance.refl m 0), htest]
    simp
  rw [if_neg htest] at herr ⊢
  obtain ⟨ok, a1, m1, heq, hrx, hall, howns, hb⟩ := setupAllTx_spec sz env.tx a m
  rw [heq] at herr ⊢
  rw [← hall]
  cases ok with
  | false =>
    rw [accounted_iff hb]
    simp
  | true =>
    obtain ⟨err, a2, m2, lost, heq2, htx, hxdp, hownsRx, hbRx, hlost⟩ :=
      setupAllRx_spec sz env.rx env.fcoe a1 m1
    rw [hrx] at hlost
    dsimp only at herr ⊢
    rw [heq2] at herr ⊢
    -- what is done for the transmit rings is undone in every case
    have hback : ∀ (a3 : RingAdapter) (m3 : RingMem), a3.tx = a2.tx → a3.xdp = a2.xdp →
        Balance m1 m3 0 0 lost → (Accounted m (freeAllTxResources a3 m3).2 ↔
          ¬ (env.testing = false ∧ true = true ∧ RxqFirst env.rx a.rx.length)) := by
      intro a3 m3 h h' hb3
      have heq3 : a3.tx ++ a3.xdp = a1.tx ++ a1.xdp := by rw [h, h', htx, hxdp]
      have hfree := freeAllTx_balance (heq3 ▸ howns rfl) m3
      rw [heq3] at hfree
      have hdone : Balance m m3 0 (blocksOf (a1.tx ++ a1.xdp)) lost := hb.seq hb3 (by simp)
      have hall : Balance m _ 0 0 lost := hdone.seq hfree (by simp [add_comm])
      rw [accounted_iff hall, hlost]
      simp [htest]
    by_cases herr2 : err = 0
    · rw [if_neg (not_not.mpr herr2)] at herr ⊢
      rw [if_pos herr2] at hbRx
      by_cases hlate : (if env.irq ≠ 0 then env.irq else if env.realTx ≠ 0 then env.realTx
          else env.realRx) ≠ 0
      · rw [if_pos hlate]
        exact hback _ _ rfl rfl (hbRx.seq (freeRings_balance true (hownsRx herr2) m2)
          (by simp [add_comm]))
      · rw [if_neg hlate] at herr
        exact absurd rfl herr
    · rw [if_pos herr2]
      rw [if_neg herr2] at hbRx
      exact hback a2 m2 rfl rfl hbRx

def RingAdapter.blocks (a : RingAdapter) : Multiset Block :=
  blocksOf (a.tx ++ a.xdp) + blocksOf a.rx

/-- **The account**: every ring has its two blocks, and every block ever allocated belongs to one
ring or was freed once. -/
structure RingAdapter.Sound (sz : RingSizes) (a : RingAdapter) (m : RingMem) : Prop where
  tx : ∀ r ∈ a.tx ++ a.xdp, r.Owns sz.txBuffer
  rx : ∀ r ∈ a.rx, r.Owns sz.rxBuffer
  balanced : (m.allocs : Multiset Block) = m.frees + a.blocks
  numbered : Numbered m.allocs

theorem Balance.balanced_iff {m m' : RingMem} {b b' lost : Multiset Block}
    (h : Balance m m' b b' lost) (hb : (m.allocs : Multiset Block) = m.frees + b) :
    (m'.allocs : Multiset Block) = m'.frees + b' ↔ lost = 0 := by
  obtain ⟨new, gone, hm, hsum⟩ := h
  have hleft : (m'.allocs : Multiset Block) = m'.frees + b' + lost := by
    calc (m'.allocs : Multiset Block) = m.frees + (new + b) := by
          rw [hm.allocs, hb]
          abel
      _ = m'.frees + b' + lost := by
          rw [hsum, hm.frees]
          abel
  rw [hleft]
  exact add_eq_left

theorem Balance.numbered {m m' : RingMem} {b b' lost : Multiset Block}
    (h : Balance m m' b b' lost) :
    Numbered m.allocs → Numbered m'.allocs := by
  obtain ⟨_, _, hm, -⟩ := h
  exact hm.numbered

theorem replaceRings_spec {bufSize : ℕ} (rx : Bool) (env : ℕ → RingEnv) (copy : MemRing → MemRing)
    {rs : List MemRing} (h : ∀ r ∈ rs, r.Owns bufSize) (m : RingMem) : ∃ ok rs' m' lost,
    replaceRings (setupResources rx bufSize) (freeResources rx) env copy rs m = (ok, rs', m') ∧
      (ok = true ↔ AllOk rx env rs.length) ∧ (∀ r ∈ rs', r.Owns bufSize) ∧
      (ok = false → rs' = rs) ∧ Balance m m' (blocksOf rs) (blocksOf rs') lost ∧
      (lost = 0 ↔ setupEnd rx env rs.length ≠ .lost) := by
  obtain ⟨ok, rs', m', lost, heq, hall, howns, hb, hlost⟩ :=
    setupRings_spec bufSize rx env (rs.map copy) [] nofun m
  rw [length_map] at hall hlost
  rw [setupEnd_eq_ok_iff] at hall
  rw [replaceRings, heq]
  cases ok with
  | false =>
    exact ⟨false, rs, m', lost, rfl, hall, h, fun _ => rfl, hb.seq (Balance.refl m' 0) (by simp),
      hlost⟩
  | true =>
    refine ⟨true, rs', _, lost, rfl, hall, howns rfl, nofun,
      hb.seq (freeRings_balance rx h m') ?_, hlost⟩
    simp [add_comm]

section

variable {sz : RingSizes} {a : RingAdapter}

theorem replaceTxRings_spec (env : ℕ → RingEnv) (newCount : ℕ)
    (h : ∀ r ∈ a.tx ++ a.xdp, r.Owns sz.txBuffer) (m : RingMem) : ∃ ok a' m',
    replaceTxRings sz env newCount a m = (ok, a', m') ∧
      (ok = true ↔ newCount = a.txRingCount ∨ AllOk false env (a.tx.length + a.xdp.length)) ∧
      (∀ r ∈ a'.tx ++ a'.xdp, r.Owns sz.txBuffer) ∧
      Balance m m' (blocksOf (a.tx ++ a.xdp)) (blocksOf (a'.tx ++ a'.xdp)) 0 ∧
      (¬ AllOk false env (a.tx.length + a.xdp.length) → a'.tx = a.tx ∧ a'.xdp = a.xdp) ∧
      a'.rx = a.rx ∧ a'.rxRingCount = a.rxRingCount := by
  rw [replaceTxRings]
  by_cases hcount : newCount = a.txRingCount
  · rw [if_pos hcount]
    exact ⟨true, a, m, rfl, ⟨fun _ => .inl hcount, fun _ => rfl⟩, h, Balance.refl m _,
      fun _ => ⟨rfl, rfl⟩, rfl, rfl⟩
  · obtain ⟨ok, rs', m', lost, heq, hall, howns, hkept, hb, hlost⟩ :=
      replaceRings_spec false env (fun r => { r with count := newCount }) h m
    change replaceRings (setupTxResources sz) freeTxResources _ _ _ _ = _ at heq
    rw [hlost.mpr (setupEnd_tx_ne_lost env _)] at hb
    rw [length_append] at hall
    rw [if_neg hcount, ← hall]
    dsimp only
    rw [heq]
    cases ok with
    | false =>
      obtain rfl := hkept rfl
      exact ⟨false, a, m', rfl, by simp [hcount], h, hb, fun _ => ⟨rfl, rfl⟩, rfl, rfl⟩
    | true =>
      have hrings := setTxXdp_rings a rs'
      exact ⟨true, _, m', rfl, by simp, fun r hr => howns r (hrings ▸ hr), hrings.symm ▸ hb,
        fun h => absurd rfl h, rfl, rfl⟩

theorem replaceRxRings_spec (env : ℕ → RingEnv) (newCount : ℕ)
    (h : ∀ r ∈ a.rx, r.Owns sz.rxBuffer) (m : RingMem) : ∃ ok a' m' lost,
    replaceRxRings sz env newCount a m = (ok, a', m') ∧
      (∀ r ∈ a'.rx, r.Owns sz.rxBuffer) ∧ Balance m m' (blocksOf a.rx) (blocksOf a'.rx) lost ∧
      (lost = 0 ↔ ¬ (newCount ≠ a.rxRingCount ∧ RxqFirst env a.rx.length)) ∧
      (¬ AllOk true env a.rx.length → a'.rx = a.rx) ∧ a'.tx = a.tx ∧ a'.xdp = a.xdp := by
  rw [replaceRxRings]
  by_cases hcount : newCount = a.rxRingCount
  · rw [if_pos hcount]
    exact ⟨true, a, m, 0, rfl, h, Balance.refl m _, by simp [hcount], fun _ => rfl, rfl, rfl⟩
  · obtain ⟨ok, rs', m', lost, heq, hall, howns, hkept, hb, hlost⟩ :=
      replaceRings_spec true env (fun r => { r with count := newCount, rxq := false }) h m
    rw [ne_eq, setupEnd_eq_lost_iff] at hlost
    change replaceRings (setupRxResources sz) freeRxResources _ _ _ _ = _ at heq
    rw [if_neg hcount, ← hall]
    dsimp only
    rw [heq]
    have hiff : lost = 0 ↔ ¬ (newCount ≠ a.rxRingCount ∧ RxqFirst env a.rx.length) :=
      hlost.trans (not_congr (and_iff_right hcount).symm)
    cases ok with
    | false =>
      obtain rfl := hkept rfl
      exact ⟨false, a, m', lost, rfl, h, hb, hiff, fun _ => rfl, rfl, rfl⟩
    | true =>
      exact ⟨true, _, m', lost, rfl, howns, hb, hiff, fun h => absurd rfl h, rfl, rfl⟩

def RingparamEnv.RxqFirst (env : RingparamEnv) (p : Ringparam) (a : RingAdapter) : Prop :=
  (p.newTxCount = a.txRingCount ∨ AllOk false env.tx (a.tx.length + a.xdp.length)) ∧
    p.newRxCount ≠ a.rxRingCount ∧ Ixgbe.RxqFirst env.rx a.rx.length

/-- A kind of rings that cannot be set up is as it was. -/
structure RingAdapter.KeepsFailed (env : RingparamEnv) (a a' : RingAdapter) : Prop where
  tx : ¬ AllOk false env.tx (a.tx.length + a.xdp.length) → a'.tx = a.tx ∧ a'.xdp = a.xdp
  rx : ¬ AllOk true env.rx a.rx.length → a'.rx = a.rx

theorem replaceAll_spec (env : RingparamEnv) (p : Ringparam)
    (htx : ∀ r ∈ a.tx ++ a.xdp, r.Owns sz.txBuffer) (hrx : ∀ r ∈ a.rx, r.Owns sz.rxBuffer)
    (m : RingMem) : ∃ err a' m' lost, replaceAll sz env p a m = (err, a', m') ∧
      (∀ r ∈ a'.tx ++ a'.xdp, r.Owns sz.txBuffer) ∧ (∀ r ∈ a'.rx, r.Owns sz.rxBuffer) ∧
      Balance m m' a.blocks a'.blocks lost ∧ (lost = 0 ↔ ¬ env.RxqFirst p a) ∧
      a.KeepsFailed env a' := by
  obtain ⟨ok, a1, m1, heq1, hok, howns1, hb1, hkept1, hrx1, hcount1⟩ :=
    replaceTxRings_spec env.tx p.newTxCount htx m
  rw [replaceAll, heq1, RingparamEnv.RxqFirst, ← hok]
  cases ok with
  | false =>
    refine ⟨eNoMem, a1, m1, 0, rfl, howns1, hrx1.symm ▸ hrx,
      hb1.seq (Balance.refl m1 0) ?_, by simp, hkept1, fun _ => hrx1⟩
    simp [RingAdapter.blocks, hrx1, add_comm, add_assoc, add_left_comm]
  | true =>
    obtain ⟨ok2, a2, m2, lost, heq2, howns2, hb2, hlost, hkept2, htx2, hxdp2⟩ :=
      replaceRxRings_spec env.rx p.newRxCount (hrx1.symm ▸ hrx) m1
    rw [hrx1, hcount1] at hlost
    rw [hrx1] at hb2 hkept2
    rw [← htx2, ← hxdp2] at howns1 hb1 hkept1
    refine ⟨if ok2 then 0 else eNoMem, a2, m2, lost, ?_, howns1, howns2, hb1.seq hb2 ?_,
      hlost.trans (not_congr (and_iff_right rfl).symm), hkept1, hkept2⟩
    · dsimp only
      rw [heq2]
      cases ok2 <;> rfl
    · rw [RingAdapter.blocks, RingAdapter.blocks]
      abel

end

/-- The first step of `ixgbe_set_ringparam` that fails is a registration. -/
def RingparamEnv.RxqFails (env : RingparamEnv) (p : Ringparam) (a : RingAdapter) : Prop :=
  p.rxMiniPending = 0 ∧ p.rxJumboPending = 0 ∧ p.InRange ∧ env.xsk = false ∧ env.temp = true ∧
    env.RxqFirst p a

theorem setRingparam_sound_iff (sz : RingSizes) (env : RingparamEnv) (p : Ringparam)
    (a : RingAdapter) (m : RingMem) (hrun : env.running = true) (hs : a.Sound sz m) :
    ((setRingparam sz env p a m).2.1.Sound sz (setRingparam sz env p a m).2.2 ∧
      a.KeepsFailed env (setRingparam sz env p a m).2.1) ↔ ¬ env.RxqFails p a := by
  -- the returns before anything is done
  have hearly : ¬ env.RxqFails p a →
      ((a.Sound sz m ∧ a.KeepsFailed env a) ↔ ¬ env.RxqFails p a) := fun hnot =>
    ⟨fun _ => hnot, fun _ => ⟨hs, fun _ => ⟨rfl, rfl⟩, fun _ => rfl⟩⟩
  rw [setRingparam]
  split
  case isTrue hmini =>
    exact hearly fun hc => hmini.elim (· hc.1) (· hc.2.1)
  rename_i hmini
  obtain ⟨hmini0, hjumbo0⟩ := not_or.mp hmini
  by_cases hrange : p.InRange
  swap
  · rw [if_pos hrange]
    exact hearly fun hc => hrange hc.2.2.1
  rw [if_neg (not_not.mpr hrange)]
  split
  case isTrue hsame =>
    exact hearly fun hc => hc.2.2.2.2.2.2.1 hsame.2
  split
  case isTrue hxsk =>
    exact hearly fun hc => nomatch hxsk.symm.trans hc.2.2.2.1
  rename_i hxsk
  rw [hrun, Bool.not_true, if_neg Bool.false_ne_true]
  by_cases htemp : env.temp = true
  swap
  · rw [eq_false_iff.mpr htemp]
    exact hearly fun hc => htemp hc.2.2.2.2.1
  generalize max (a.tx.length + a.xdp.length) a.rx.length * sz.ring = size
  obtain ⟨i, m1, heq, hb1⟩ := alloc_balance m size
  obtain ⟨err, a', m2, lost, heq2, htx, hrx, hb2, hlost, hkept⟩ :=
    replaceAll_spec env p hs.tx hs.rx m1
  rw [htemp, heq]
  dsimp only
  rw [heq2]
  have hfails : env.RxqFails p a ↔ env.RxqFirst p a :=
    ⟨fun hc => hc.2.2.2.2.2, fun hc => ⟨not_not.mp hmini0, not_not.mp hjumbo0, hrange,
      eq_false_iff.mpr hxsk, htemp, hc⟩⟩
  -- the temporary array comes and goes
  have htemp : Balance m m2 a.blocks (a'.blocks + {(i, size)}) lost := hb1.seq hb2 (by abel)
  have hb : Balance m _ a.blocks a'.blocks lost := htemp.seq (vfree_balance m2 (i, size)) (by abel)
  rw [hfails, ← hlost, ← hb.balanced_iff hs.balanced]
  exact ⟨fun h => h.1.balanced, fun h => ⟨⟨htx, hrx, h, hb.numbered hs.numbered⟩, hkept⟩⟩

/-- **The ring memory is accounted for** by `ixgbe_open` and `ixgbe_set_ringparam` exactly unless
the first step that fails is the registration of a receive ring. -/
theorem ringMemory_iff (sz : RingSizes) (openEnv : OpenEnv) (env : RingparamEnv) (p : Ringparam)
    (a : RingAdapter) (m : RingMem) :
    ((ixgbeOpen sz openEnv a m).1 ≠ 0 →
      (Accounted m (ixgbeOpen sz openEnv a m).2.2 ↔ ¬ openEnv.RxqFails a)) ∧
    (env.running = true → a.Sound sz m →
      (((setRingparam sz env p a m).2.1.Sound sz (setRingparam sz env p a m).2.2 ∧
        a.KeepsFailed env (setRingparam sz env p a m).2.1) ↔ ¬ env.RxqFails p a)) :=
  ⟨open_accounted_iff sz openEnv a m, setRingparam_sound_iff sz env p a m⟩

def ringSizes : RingSizes := ⟨48, 32, 4096⟩

def ringOk : RingEnv := ⟨true, true, true, true, true⟩

def closedRings : RingAdapter :=
  ⟨[⟨512, 0, none, none, false⟩], [], [⟨512, 0, none, none, false⟩], 512, 512, 512⟩

def runningRings : RingAdapter :=
  ⟨[⟨512, 8192, some (0, 24576), some (1, 8192), false⟩], [],
    [⟨512, 8192, some (2, 16384), some (3, 8192), true⟩], 512, 512, 512⟩

def runningMem : RingMem := ⟨[(3, 8192), (2, 16384), (1, 8192), (0, 24576)], []⟩

theorem runningRings_sound : runningRings.Sound ringSizes runningMem := by
  refine ⟨fun r hr => ?_, fun r hr => ?_, by decide, rfl⟩
  · obtain rfl := mem_singleton.mp hr
    exact ⟨⟨0, rfl⟩, ⟨1, rfl⟩, rfl⟩
  · obtain rfl := mem_singleton.mp hr
    exact ⟨⟨2, rfl⟩, ⟨3, rfl⟩, rfl⟩

theorem ringMemory_no_descriptors : let openEnv : OpenEnv :=
      ⟨false, fun _ => ringOk, fun _ => { ringOk with descNode := false, desc := false }, 0, 0, 0,
        0⟩
    let env : RingparamEnv :=
      ⟨false, true, true, fun _ => { ringOk with descNode := false, desc := false },
        fun _ => ringOk⟩
    Accounted ⟨[], []⟩ (ixgbeOpen ringSizes openEnv closedRings ⟨[], []⟩).2.2 ∧
    (setRingparam ringSizes env ⟨512, 0, 0, 1024⟩ runningRings runningMem).2.1.Sound ringSizes
      (setRingparam ringSizes env ⟨512, 0, 0, 1024⟩ runningRings runningMem).2.2 := by
  intro openEnv env
  refine ⟨((ringMemory_iff ringSizes openEnv env ⟨512, 0, 0, 1024⟩ closedRings ⟨[], []⟩).1
    (by decide)).mpr ?_, (((ringMemory_iff ringSizes openEnv env ⟨512, 0, 0, 1024⟩ runningRings
    runningMem).2 rfl runningRings_sound).mpr ?_).1⟩
  · rintro ⟨-, -, i, -, -, hfails⟩
    exact Bool.false_ne_true hfails
  · rintro ⟨-, -, -, -, -, -, -, i, -, -, hfails⟩
    exact Bool.false_ne_true hfails

/-- Block 3, and block 6, are never freed. -/
theorem registration_loses_descriptors : let openEnv : OpenEnv :=
      ⟨false, fun _ => ringOk, fun _ => { ringOk with rxq := false }, 0, 0, 0, 0⟩
    let env : RingparamEnv :=
      ⟨false, true, true, fun _ => ringOk, fun _ => { ringOk with rxq := false }⟩
    (ixgbeOpen ringSizes openEnv closedRings ⟨[], []⟩).1 = eNoMem ∧
    (ixgbeOpen ringSizes openEnv closedRings ⟨[], []⟩).2.2.allocs.map Prod.fst = [3, 2, 1, 0] ∧
    (ixgbeOpen ringSizes openEnv closedRings ⟨[], []⟩).2.2.frees.map Prod.fst = [1, 0, 2] ∧
    ¬ Accounted ⟨[], []⟩ (ixgbeOpen ringSizes openEnv closedRings ⟨[], []⟩).2.2 ∧
    (setRingparam ringSizes env ⟨1024, 0, 0, 512⟩ runningRings runningMem).1 = eNoMem ∧
    (setRingparam ringSizes env ⟨1024, 0, 0, 512⟩ runningRings runningMem).2.2.allocs.map Prod.fst =
      [6, 5, 4, 3, 2, 1, 0] ∧
    (setRingparam ringSizes env ⟨1024, 0, 0, 512⟩ runningRings runningMem).2.2.frees.map Prod.fst =
      [4, 5] ∧
    ¬ (setRingparam ringSizes env ⟨1024, 0, 0, 512⟩ runningRings runningMem).2.1.Sound ringSizes
      (setRingparam ringSizes env ⟨1024, 0, 0, 512⟩ runningRings runningMem).2.2 := by
  refine ⟨by decide, by decide, by decide, ?_, by decide, by decide, by decide, fun h => ?_⟩
  · rintro ⟨new, h⟩
    obtain ⟨halloc, hfree, -⟩ := h
    have hcard := congrArg Multiset.card (halloc.trans hfree.symm)
    exact absurd hcard (by decide)
  · have hcard := congrArg Multiset.card h.balanced
    exact absurd hcard (by decide)

end Ixgbe
