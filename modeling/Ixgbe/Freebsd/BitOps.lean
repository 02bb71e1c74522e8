import Mathlib.Data.BitVec
import Ixgbe.Library.Interleave

/-! # Bit operations of the FreeBSD port

Those of `ixgbe_oal.c` load the word, change a bit and store it. Next to the word stands what has
happened to it. -/

namespace Ixgbe

open Interleave EventRun Function BitVec

/-- The bit, what was done, and the old bit if it is returned. -/
structure BitDone where
  nr : Fin 64
  sets : Bool
  old : Option Bool
  deriving DecidableEq, Repr

/-- A load by a test or an update, or the store that completes an update. -/
inductive BitOp
  | test
  | load
  | store (v : BitVec 64) (d : BitDone)
  deriving DecidableEq, Repr

abbrev BitProg := Prog BitOp (BitVec 64)

section

variable (nr : Fin 64) (d : BitDone) (w : BitVec 64)

def bitMask : BitVec 64 := twoPow 64 nr

def Oal.testBit : BitProg Bool := do
  let w ← Prog.access .test
  pure (w &&& bitMask nr != 0)

/-- `old` is what the caller returns. -/
def Oal.setBit (old : Option Bool) : BitProg PUnit := do
  let w ← Prog.access .load
  let _ ← Prog.access (.store (w ||| bitMask nr) ⟨nr, true, old⟩)
  pure ⟨⟩

def Oal.clearBit (old : Option Bool) : BitProg PUnit := do
  let w ← Prog.access .load
  let _ ← Prog.access (.store (w &&& ~~~bitMask nr) ⟨nr, false, old⟩)
  pure ⟨⟩

def Oal.testAndSetBit : BitProg Bool := do
  let old ← testBit nr
  setBit nr (some old)
  pure old

def Oal.testAndClearBit : BitProg Bool := do
  let old ← testBit nr
  clearBit nr (some old)
  pure old

inductive BitCall
  | set (nr : Fin 64)
  | clear (nr : Fin 64)
  | testAndSet (nr : Fin 64)
  | testAndClear (nr : Fin 64)

def BitCall.prog : BitCall → BitProg (Option Bool)
  | .set nr => do
    Oal.setBit nr none
    pure none
  | .clear nr => do
    Oal.clearBit nr none
    pure none
  | .testAndSet nr => do
    let old ← Oal.testAndSetBit nr
    pure (some old)
  | .testAndClear nr => do
    let old ← Oal.testAndClearBit nr
    pure (some old)

/-- The updates completed, those since each thread's last test, and what each last loaded. -/
structure BitWord (ι : Type) where
  word : BitVec 64
  done : List BitDone
  since : ι → List BitDone
  loaded : ι → BitVec 64

/-- Only a store changes the word; the rest is history. -/
def bitExec {ι : Type} [DecidableEq ι] (i : ι) (o : BitOp) (s : BitWord ι) :
    BitVec 64 × BitWord ι :=
  match o with
  | .test => (s.word, { s with since := Function.update s.since i [] })
  | .load => (s.word, { s with loaded := Function.update s.loaded i s.word })
  | .store v d => (0, { s with
      word := v
      done := d :: s.done
      since := fun j => d :: s.since j })

def BitDone.apply : BitVec 64 :=
  if d.sets then w ||| bitMask d.nr else w &&& ~~~bitMask d.nr

def replay (w : BitVec 64) : List BitDone → BitVec 64
  | [] => w
  | d :: l => d.apply (replay w l)

def BitDone.takes : Bool := d.sets && d.old == some false

def takers (nr : Fin 64) : List BitDone → ℕ
  | [] => 0
  | d :: l =>
    if d.nr ≠ nr then takers nr l
    else if d.sets = false then 0
    else if d.takes then takers nr l + 1
    else takers nr l

/-- **The operations have been atomic**, with `w` the word they started from. -/
structure BitWord.Atomic {ι : Type} (w : BitVec 64) (s : BitWord ι) : Prop where
  kept : s.word = replay w s.done
  taken : ∀ nr, takers nr s.done ≤ 1

/-- **The condition on the store** of thread `i` that completes `d`. -/
structure BitWord.StoreOk {ι : Type} (s : BitWord ι) (i : ι) (d : BitDone) : Prop where
  /-- No other bit has changed since the thread loaded the word. -/
  fresh : ∀ b, b ≠ d.nr.val → (s.loaded i).getLsbD b = s.word.getLsbD b
  /-- If it takes the bit, no other call has taken it since the test. -/
  alone : d.takes = true → takers d.nr (s.since i) = 0

def bitSystem (ι : Type) [DecidableEq ι] :
    System ι (BitWord ι) BitOp (BitVec 64) (Option Bool) BitCall Empty where
  exec := bitExec
  prog := BitCall.prog
  env := fun e => nomatch e
  safe := fun _ _ _ => True
  retOk := fun _ => True
  ok := fun i o s =>
    match o with
    | .store _ d => s.StoreOk i d
    | _ => True

def bitStart (ι : Type) (w : BitVec 64) : Pool ι (BitWord ι) BitOp (BitVec 64) (Option Bool) where
  shared := ⟨w, [], fun _ => [], fun _ => w⟩
  agent := fun _ => .ret none

theorem getLsbD_apply (b : ℕ) :
    (d.apply w).getLsbD b = if b = d.nr.val then d.sets else w.getLsbD b := by
  have hlt := d.nr.isLt
  rw [BitDone.apply, bitMask]
  by_cases hsets : d.sets = true
  · rw [if_pos hsets, getLsbD_or, getLsbD_twoPow, hsets]
    by_cases hb : b = d.nr.val
    · rw [if_pos hb, decide_eq_true hlt, decide_eq_true hb.symm, Bool.and_self, Bool.or_true]
    · rw [if_neg hb, decide_eq_false (Ne.symm hb), Bool.and_false, Bool.or_false]
  · rw [if_neg hsets, getLsbD_and, getLsbD_not, getLsbD_twoPow, Bool.eq_false_iff.mpr hsets]
    by_cases hb : b = d.nr.val
    · rw [if_pos hb, decide_eq_true hlt, decide_eq_true hb.symm, Bool.and_self, Bool.not_true,
        Bool.and_false, Bool.and_false]
    · rw [if_neg hb, decide_eq_false (Ne.symm hb), Bool.and_false, Bool.not_false, Bool.and_true]
      by_cases hw : b < 64
      · rw [decide_eq_true hw, Bool.and_true]
      · rw [getLsbD_of_ge _ _ (Nat.le_of_not_lt hw), Bool.false_and]

theorem apply_eq_apply_iff (v w : BitVec 64) :
    d.apply v = d.apply w ↔ ∀ b, b ≠ d.nr.val → v.getLsbD b = w.getLsbD b := by
  refine ⟨fun h b hb => ?_, fun h => eq_of_getLsbD_eq fun b _ => ?_⟩
  · have hbit := congrArg (getLsbD · b) h
    rwa [getLsbD_apply, getLsbD_apply, if_neg hb, if_neg hb] at hbit
  · rw [getLsbD_apply, getLsbD_apply]
    by_cases hb : b = d.nr.val
    · rw [if_pos hb, if_pos hb]
    · rw [if_neg hb, if_neg hb, h b hb]

theorem and_bitMask_bne (nr : Fin 64) : (w &&& bitMask nr != 0) = w.getLsbD nr := by
  have hne : twoPow 64 nr.val ≠ 0 := fun hc => by
    have hbit := congrArg (getLsbD · nr.val) hc
    simp [nr.isLt] at hbit
  rw [bitMask, and_twoPow]
  cases w.getLsbD nr with
  | false => rfl
  | true => exact bne_iff_ne.mpr hne

theorem takers_cons_congr {nr : Fin 64} {l l' : List BitDone} (d : BitDone)
    (h : takers nr l = takers nr l') : takers nr (d :: l) = takers nr (d :: l') := by
  rw [takers, takers, h]

theorem takers_cons_self {d : BitDone} (h : d.takes = true) (l : List BitDone) :
    takers d.nr (d :: l) = takers d.nr l + 1 := by
  have hsets : d.sets ≠ false := fun hc => by
    rw [BitDone.takes, hc] at h
    exact nomatch h
  rw [takers, if_neg (not_not.mpr rfl), if_neg hsets, if_pos h]

theorem takers_cons_le {nr : Fin 64} {d : BitDone} (h : d.nr = nr → d.takes = false)
    (l : List BitDone) : takers nr (d :: l) ≤ takers nr l := by
  rw [takers]
  by_cases hnr : d.nr = nr
  · rw [if_neg (not_not.mpr hnr)]
    split
    · exact Nat.zero_le _
    · rw [h hnr, if_neg (by decide)]
  · rw [if_pos hnr]

theorem getLsbD_of_takers {nr : Fin 64} {l : List BitDone} (h : 0 < takers nr l) :
    (replay w l).getLsbD nr = true := by
  induction l with
  | nil => exact absurd h (Nat.lt_irrefl 0)
  | cons d l ih =>
    rw [replay, getLsbD_apply]
    rw [takers] at h
    by_cases hnr : d.nr = nr
    · rw [if_neg (not_not.mpr hnr)] at h
      rw [if_pos (congrArg Fin.val hnr.symm)]
      by_contra hsets
      rw [if_pos (Bool.eq_false_iff.mpr hsets)] at h
      exact Nat.lt_irrefl 0 h
    · rw [if_pos hnr] at h
      rw [if_neg fun hc => hnr (Fin.ext hc.symm)]
      exact ih h

def updateProg : BitProg (Option Bool) :=
  .op .load fun w => .op (.store (d.apply w) d) fun _ => .ret d.old

end

/-- Those who have taken the bit of a test-and-set did so since its test. -/
inductive BitStage {ι : Type} (s : BitWord ι) (i : ι) : BitProg (Option Bool) → Prop
  | idle (a : Option Bool) : BitStage s i (.ret a)
  | test (nr : Fin 64) (sets : Bool) :
    BitStage s i (.op .test fun w => updateProg ⟨nr, sets, some (w &&& bitMask nr != 0)⟩)
  | update (d : BitDone) (h : d.takes = true → takers d.nr (s.since i) = takers d.nr s.done) :
    BitStage s i (updateProg d)
  | write (d : BitDone) (h : d.takes = true → takers d.nr (s.since i) = takers d.nr s.done) :
    BitStage s i (.op (.store (d.apply (s.loaded i)) d) fun _ => .ret d.old)

section

variable {ι : Type} {s : BitWord ι} {i : ι}

theorem bitStage_prog (c : BitCall) : BitStage s i c.prog :=
  match c with
  | .set nr => .update ⟨nr, true, none⟩ nofun
  | .clear nr => .update ⟨nr, false, none⟩ nofun
  | .testAndSet nr => .test nr true
  | .testAndClear nr => .test nr false

theorem BitStage.congr {p : BitProg (Option Bool)} (h : BitStage s i p) {t : BitWord ι}
    (hloaded : t.loaded i = s.loaded i) (htakers : ∀ nr, takers nr (s.since i) = takers nr s.done →
      takers nr (t.since i) = takers nr t.done) : BitStage t i p := by
  cases h with
  | idle a => exact .idle a
  | test nr sets => exact .test nr sets
  | update d hd => exact .update d fun ht => htakers _ (hd ht)
  | write d hd =>
    rw [← hloaded]
    exact .write d fun ht => htakers _ (hd ht)

end

structure BitInv {ι : Type} (w : BitVec 64)
    (p : Pool ι (BitWord ι) BitOp (BitVec 64) (Option Bool)) : Prop where
  atomic : p.shared.Atomic w
  stage : ∀ i, BitStage p.shared i (p.agent i)

section

variable {ι : Type} [DecidableEq ι] {w : BitVec 64}
  {p : Pool ι (BitWord ι) BitOp (BitVec 64) (Option Bool)} {i : ι}

theorem BitInv.advance {t : BitWord ι} {q : BitProg (Option Bool)} (hatomic : t.Atomic w)
    (hself : BitStage t i q) (hothers : ∀ j, j ≠ i → BitStage t j (p.agent j)) :
    BitInv w ⟨t, update p.agent i q⟩ :=
  ⟨hatomic, (forall_update_iff _ (BitStage t)).mpr ⟨hself, hothers⟩⟩

section

variable (h : BitInv w p)

include h

theorem BitInv.call (c : BitCall) : BitInv w ((bitSystem ι).next p (.call i c)) := by
  rw [System.next]
  cases hi : p.agent i with
  | ret a => exact BitInv.advance h.atomic (bitStage_prog c) fun j _ => h.stage j
  | op o k => exact h

theorem BitInv.test (nr : Fin 64) (sets : Bool) :
    BitInv w ⟨(bitExec i .test p.shared).2, update p.agent i
      (updateProg ⟨nr, sets, some (p.shared.word &&& bitMask nr != 0)⟩)⟩ := by
  refine BitInv.advance ⟨h.atomic.kept, h.atomic.taken⟩ (.update _ fun ht => ?_) fun j hj =>
    (h.stage j).congr rfl fun nr hnr => ?_
  · have hclear : p.shared.word.getLsbD nr = false := by
      rw [BitDone.takes, Bool.and_eq_true, and_bitMask_bne] at ht
      exact Option.some.inj (beq_iff_eq.mp ht.2)
    have hnone : takers nr p.shared.done = 0 := by
      by_contra hpos
      have hset := getLsbD_of_takers w (Nat.pos_of_ne_zero hpos)
      rw [← h.atomic.kept, hclear] at hset
      exact nomatch hset
    change takers nr (update p.shared.since i [] i) = takers nr p.shared.done
    rw [update_self, hnone]
    rfl
  · change takers nr (update p.shared.since i [] j) = takers nr p.shared.done
    rw [update_of_ne hj]
    exact hnr

section

variable {d : BitDone}
  (hd : d.takes = true → takers d.nr (p.shared.since i) = takers d.nr p.shared.done)

include hd

theorem BitInv.load :
    BitInv w ⟨(bitExec i .load p.shared).2, update p.agent i
      (.op (.store (d.apply p.shared.word) d) fun _ => .ret d.old)⟩ := by
  have hloaded : (bitExec i .load p.shared).2.loaded i = p.shared.word := update_self ..
  refine BitInv.advance ⟨h.atomic.kept, h.atomic.taken⟩ ?_ fun j hj =>
    (h.stage j).congr (update_of_ne hj ..) fun nr hnr => hnr
  rw [← hloaded]
  exact .write d hd

theorem BitInv.atomic_store_iff :
    ((bitExec i (.store (d.apply (p.shared.loaded i)) d) p.shared).2.Atomic w) ↔
      p.shared.StoreOk i d := by
  have hword : d.apply (p.shared.loaded i) = replay w (d :: p.shared.done) ↔
      ∀ b, b ≠ d.nr.val → (p.shared.loaded i).getLsbD b = p.shared.word.getLsbD b := by
    rw [replay, ← h.atomic.kept, apply_eq_apply_iff]
  refine ⟨fun ha => ⟨hword.mp ha.kept, fun ht => ?_⟩,
    fun hok => ⟨hword.mpr hok.fresh, fun nr => ?_⟩⟩
  · have hle := ha.taken d.nr
    change takers d.nr (d :: p.shared.done) ≤ 1 at hle
    rw [takers_cons_self ht] at hle
    rw [hd ht]
    omega
  · change takers nr (d :: p.shared.done) ≤ 1
    by_cases ht : d.nr = nr ∧ d.takes = true
    · obtain ⟨rfl, ht⟩ := ht
      rw [takers_cons_self ht, ← hd ht, hok.alone ht]
    · have hle := takers_cons_le (d := d) (fun hnr => Bool.eq_false_iff.mpr fun hc => ht ⟨hnr, hc⟩)
        p.shared.done
      exact hle.trans (h.atomic.taken nr)

theorem BitInv.store (hok : p.shared.StoreOk i d) :
    BitInv w ⟨(bitExec i (.store (d.apply (p.shared.loaded i)) d) p.shared).2,
      update p.agent i (.ret d.old)⟩ :=
  BitInv.advance ((h.atomic_store_iff hd).mpr hok) (.idle d.old) fun j _ =>
    (h.stage j).congr rfl fun _ hnr => takers_cons_congr d hnr

end

theorem BitInv.next (e : Event ι BitCall Empty) (hok : (bitSystem ι).Meets p e) :
    BitInv w ((bitSystem ι).next p e) := by
  cases e with
  | call i c => exact h.call c
  | env e => exact nomatch e
  | step i =>
    have hstage := h.stage i
    rw [System.Meets] at hok
    rw [System.next]
    generalize p.agent i = q at hstage hok ⊢
    cases hstage with
    | idle a => exact h
    | test nr sets => exact h.test nr sets
    | update d hd => exact h.load hd
    | write d hd => exact h.store hd hok

theorem BitInv.not_atomic (e : Event ι BitCall Empty)
    (hbad : ¬ (bitSystem ι).Meets p e) : ¬ ((bitSystem ι).next p e).shared.Atomic w := by
  cases e with
  | call i c => exact absurd trivial hbad
  | env e => exact nomatch e
  | step i =>
    have hstage := h.stage i
    rw [System.Meets] at hbad
    rw [System.next]
    generalize p.agent i = q at hstage hbad ⊢
    cases hstage with
    | idle a => exact absurd trivial hbad
    | test nr sets => exact absurd trivial hbad
    | update d hd => exact absurd trivial hbad
    | write d hd => exact fun ha => hbad ((h.atomic_store_iff hd).mp ha)

end

end

theorem bitStart_inv (ι : Type) (w : BitVec 64) : BitInv w (bitStart ι w) :=
  ⟨⟨rfl, fun _ => Nat.zero_le 1⟩, fun _ => .idle none⟩

/-- **The bit operations are atomic** exactly when at every store no other bit has changed since the
load, and a test-and-set that found the bit clear was not overtaken. -/
theorem bitOps_atomic_iff (ι : Type) [DecidableEq ι] (w : BitVec 64)
    (es : List (Event ι BitCall Empty)) :
    After (bitSystem ι).next (fun p => p.shared.Atomic w) (bitStart ι w) es ↔
      Along (bitSystem ι).next (bitSystem ι).Meets (bitStart ι w) es :=
  after_iff_along (fun _ _ => True) (fun _ e (h : BitInv w _) _ hok => h.next e hok)
    (fun _ h => h.atomic) (fun _ e h _ hbad => h.not_atomic e hbad) (bitStart_inv ι w)
    (along_of_forall (q := fun _ => True) _ es fun _ _ => trivial)

/-- An update is lost if both threads load first; two test-and-set calls both find the bit clear. -/
theorem bitOps_lost_and_taken_twice :
    (¬ After (bitSystem Bool).next (fun p => p.shared.word = replay 0 p.shared.done)
      (bitStart Bool 0)
      [.call false (.set 0), .call true (.set 1), .step false, .step true, .step true,
        .step false]) ∧
    ¬ After (bitSystem Bool).next (fun p => takers 2 p.shared.done ≤ 1) (bitStart Bool 0)
      [.call false (.testAndSet 2), .call true (.testAndSet 2), .step false, .step true,
        .step false, .step false, .step true, .step true] := by
  refine ⟨fun h => ?_, fun h => ?_⟩
  · obtain ⟨-, -, -, -, -, h, -⟩ := h
    exact absurd h (by decide)
  · obtain ⟨-, -, -, -, -, -, -, h, -⟩ := h
    exact absurd h (by decide)

end Ixgbe
