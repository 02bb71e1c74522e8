import Ixgbe.Hw.SwfwSync

/-! # Mutual exclusion by the semaphore of software and firmware

A grant should be based on a `SW_FW_SYNC` without the requested bits, which only the holder of
`SMBI` writes. The last attempt of `acquire` and `release` do not care. -/

namespace Ixgbe

open Interleave EventRun BitVec Prog

variable {ι : Type}

@[simp] theorem smbi_or_one (v : U32) : smbi (v ||| 1) = true := by
  unfold smbi
  rw [getLsbD_or]
  exact Bool.or_true _

@[simp] theorem smbi_and_not (v : U32) : smbi (v &&& ~~~shl1 0) = false := by
  unfold smbi
  rw [getLsbD_and]
  exact Bool.and_false _

theorem smbi_env (v w : U32) : smbi ((v &&& 1) ||| (w &&& ~~~1)) = smbi v := by
  unfold smbi
  rw [getLsbD_or, getLsbD_and, getLsbD_and]
  have h1 : (1 : U32).getLsbD 0 = true := by decide
  have h2 : (~~~(1 : U32)).getLsbD 0 = false := by decide
  rw [h1, h2, Bool.and_true, Bool.and_false, Bool.or_false]

theorem and_eq_zero_of_busy {v fw sw hw : U32} (h : v &&& (fw ||| sw ||| hw) = 0) :
    v &&& sw = 0 := by
  refine eq_of_getLsbD_eq fun b _ => ?_
  have hb : (v &&& (fw ||| sw ||| hw)).getLsbD b = (0 : U32).getLsbD b := by rw [h]
  simp only [getLsbD_and, getLsbD_or] at hb ⊢
  revert hb
  have hzero : (0 : U32).getLsbD b = false := getLsbD_zero
  cases v.getLsbD b <;> cases sw.getLsbD b <;> simp

/-- `SW_FW_SYNC` is written by the holder of `SMBI` only. -/
def SwfwOp.Safe (i : ι) (o : SwfwOp) (hw : SwfwHw ι) : Prop :=
  match o with
  | .writeSync _ => hw.holder = some i
  | _ => True

/-- Based on a value with none of the requested software bits. -/
def SwfwRet.Ok : SwfwRet → Prop
  | .acquired swmask basis => basis &&& swmask = 0
  | _ => True

/-- **The condition on an access**, on the registers before it. -/
def SwfwOp.Ok (o : SwfwOp) (hw : SwfwHw ι) : Prop :=
  match o with
  | .readSync (.finalRead swmask) => hw.sync &&& swmask = 0
  | .readSync .lastRegsmp => regsmp hw.sync = false
  | .readSwsm .lastSmbi => smbi hw.swsm = false
  | _ => True

inductive SwfwCall
  | acquire (mask : U32)
  | release (mask : U32)

def SwfwCall.prog (mac : MacType) : SwfwCall → SwfwProg SwfwRet
  | .acquire mask => acquireSwfwSyncX540 mac mask
  | .release mask => do
    releaseSwfwSyncX540 .lastSmbi .lastRegsmp mask
    pure .released

def swfwSystem (ι : Type) (mac : MacType) :
    System ι (SwfwHw ι) SwfwOp U32 SwfwRet SwfwCall SwfwEnv where
  exec := swfwExec
  prog := SwfwCall.prog mac
  env := swfwEnv
  safe := SwfwOp.Safe
  retOk := SwfwRet.Ok
  ok := fun _ => SwfwOp.Ok

/-- `SMBI` is set exactly while it has a holder. -/
def swfwOutline (ι : Type) [DecidableEq ι] (mac : MacType) : Outline (swfwSystem ι mac) Bool where
  inv := fun hw => smbi hw.swsm = hw.holder.isSome
  view := fun i hw => decide (hw.holder = some i)
  idle := false
  danger := fun _ _ => False
  not_danger := fun _ _ _ => id
  inv_env := fun e hw h => (smbi_env hw.swsm e.swsm).trans h
  view_env := fun _ _ _ => rfl

theorem smbiPoll_bind (site : SwfwSite) (n : ℕ) (f : Bool → SwfwProg SwfwRet) :
    smbiPoll site (n + 1) >>= f = .op (.readSwsm (if n = 0 then site else .other)) fun v =>
      if smbi v = true then smbiPoll site n >>= f else f true :=
  congrArg (Prog.op _) (funext fun v => apply_ite (· >>= f) (smbi v = true) _ _)

theorem regsmpPoll_bind (site : SwfwSite) (n : ℕ) (f : Bool → SwfwProg SwfwRet) :
    regsmpPoll site (n + 1) >>= f = .op (.readSync (if n = 0 then site else .other)) fun v =>
      if regsmp v = true then regsmpPoll site n >>= f else f true :=
  congrArg (Prog.op _) (funext fun v => apply_ite (· >>= f) (regsmp v = true) _ _)

section Alone

variable {mac : MacType} {i : ι}

abbrev SwfwDoomed (mac : MacType) (i : ι) (p : SwfwProg SwfwRet) (hw : SwfwHw ι) : Prop :=
  (swfwSystem ι mac).Doomed i p hw

theorem doomed_releaseSwfwSyncSemaphore {f : PUnit → SwfwProg SwfwRet}
    (h : ∀ hw : SwfwHw ι, hw.holder = none → SwfwDoomed mac i (f ⟨⟩) hw) (hw : SwfwHw ι) :
    SwfwDoomed mac i (releaseSwfwSyncSemaphore >>= f) hw := by
  refine ⟨trivial, Or.inr ⟨trivial, Or.inr ⟨trivial, Or.inr ⟨trivial, Or.inr (h _ ?_)⟩⟩⟩⟩
  change (if smbi (_ &&& ~~~shl1 0) = true then _ else none) = none
  rw [smbi_and_not]
  rfl

theorem doomed_of_not_holder {g : U32 → U32} {f : U32 → SwfwProg SwfwRet} {hw : SwfwHw ι}
    (h : hw.holder ≠ some i) :
    SwfwDoomed mac i (.op (.readSync .other) fun v => .op (.writeSync (g v)) f) hw :=
  ⟨trivial, Or.inr ⟨trivial, Or.inl h⟩⟩

/-- Under any condition `ok` that the reads of the loop meet. -/
theorem doomed_smbiPoll {ok : ι → SwfwOp → SwfwHw ι → Prop} {f : Bool → SwfwProg SwfwRet}
    {h : Option ι} {site : SwfwSite}
    (hok : ∀ (m : ℕ) hw, ok i (.readSwsm (if m = 0 then site else .other)) hw)
    (hf : ∀ hw : SwfwHw ι, hw.holder = h →
      System.Doomed { swfwSystem ι mac with ok := ok } i (f false) hw) (n : ℕ) {hw : SwfwHw ι}
    (hset : smbi hw.swsm = true) (hholder : hw.holder = h) :
    System.Doomed { swfwSystem ι mac with ok := ok } i (smbiPoll site n >>= f) hw := by
  induction n generalizing hw with
  | zero => exact hf hw hholder
  | succ n ih =>
    rw [smbiPoll_bind]
    refine ⟨hok n hw, Or.inr ?_⟩
    change System.Doomed _ i (if smbi hw.swsm = true then _ else _)
      { hw with swsm := hw.swsm ||| 1, holder := if smbi hw.swsm = true then hw.holder else some i }
    rw [if_pos hset, if_pos hset]
    exact ih (smbi_or_one _) hholder

/-- `release`, called by the holder of `SMBI`, gives it up without having got it, and then once
more. -/
theorem doomed_release_twice {f : PUnit → SwfwProg SwfwRet} {mask : U32} {hw : SwfwHw ι}
    (hset : smbi hw.swsm = true) :
    SwfwDoomed mac i
      (releaseSwfwSyncX540 .other .other mask >>= fun _ => releaseSwfwSyncSemaphore >>= f) hw := by
  unfold releaseSwfwSyncX540 getSwfwSyncSemaphore
  simp only [bind_assoc]
  refine doomed_smbiPoll (fun _ _ => by rw [ite_self]; trivial) (fun hw _ => ?_) 2000 hset rfl
  refine ⟨trivial, Or.inr ⟨trivial, Or.inr ?_⟩⟩
  refine doomed_releaseSwfwSyncSemaphore (fun hw hnone => ?_) _
  exact doomed_of_not_holder (by rw [hnone]; exact nofun)

theorem exec_readSwsm_of_set {site : SwfwSite} {hw : SwfwHw ι} (hset : smbi hw.swsm = true) :
    ((swfwSystem ι mac).exec i (.readSwsm site) hw).2 = { hw with swsm := hw.swsm ||| 1 } := by
  change ({ hw with
    swsm := hw.swsm ||| 1, holder := if smbi hw.swsm then hw.holder else some i } : SwfwHw ι) = _
  rw [if_pos hset]

end Alone

section Rules

variable [DecidableEq ι] {mac : MacType} {i : ι} {l : Bool} {k : U32 → SwfwProg SwfwRet}

abbrev SwfwFine (mac : MacType) (i : ι) (p : SwfwProg SwfwRet) (l : Bool) : Prop :=
  (swfwOutline ι mac).Fine i p l

theorem fine_readSync {site : SwfwSite}
    (hok : ∀ hw : SwfwHw ι, SwfwOp.Ok (.readSync site) hw → SwfwFine mac i (k hw.sync) l)
    (hbad : ∀ hw : SwfwHw ι, decide (hw.holder = some i) = l →
      smbi hw.swsm = hw.holder.isSome → ¬ SwfwOp.Ok (.readSync site) hw →
      SwfwDoomed mac i (k hw.sync) hw) :
    SwfwFine mac i (.op (.readSync site) k) l :=
  fun hw hview => ⟨False.elim, fun hinv => ⟨trivial, fun _ _ => rfl,
    fun h => ⟨hinv, hview ▸ hok hw h⟩, fun h => Or.inl (hbad hw hview hinv h)⟩⟩

theorem fine_readSync_other (h : ∀ v, SwfwFine mac i (k v) l) :
    SwfwFine mac i (.op (.readSync .other) k) l :=
  fine_readSync (fun hw _ => h hw.sync) fun _ _ _ hbad => absurd trivial hbad

theorem fine_writeSync {v : U32} (h : SwfwFine mac i (k 0) true) :
    SwfwFine mac i (.op (.writeSync v) k) true :=
  fun hw hview => ⟨False.elim, fun hinv => ⟨show hw.holder = some i from of_decide_eq_true hview,
    fun _ _ => rfl,
    fun _ => ⟨hinv, hview ▸ h⟩, fun hbad => absurd trivial hbad⟩⟩

theorem fine_readSwsm_true (h : ∀ v, smbi v = true → SwfwFine mac i (k v) true) :
    SwfwFine mac i (.op (.readSwsm .other) k) true := by
  refine fun hw hview => ⟨False.elim, fun hinv => ?_⟩
  have hholder : hw.holder = some i := of_decide_eq_true hview
  have hset : smbi hw.swsm = true := by
    rw [show smbi hw.swsm = hw.holder.isSome from hinv, hholder]
    rfl
  rw [exec_readSwsm_of_set hset]
  refine ⟨trivial, fun _ _ => rfl, fun _ => ⟨?_, hview ▸ h _ hset⟩, fun hbad => absurd trivial hbad⟩
  change smbi (hw.swsm ||| 1) = hw.holder.isSome
  rw [smbi_or_one, hholder]
  rfl

theorem fine_readSwsm_false {site : SwfwSite}
    (hgot : ∀ v, smbi v = false → SwfwFine mac i (k v) true)
    (hwait : ∀ hw : SwfwHw ι, smbi hw.swsm = true → SwfwOp.Ok (.readSwsm site) hw →
      SwfwFine mac i (k hw.swsm) false)
    (hbad : ∀ hw : SwfwHw ι, hw.holder ≠ some i → ¬ SwfwOp.Ok (.readSwsm site) hw →
      SwfwDoomed mac i (k hw.swsm) { hw with swsm := hw.swsm ||| 1 }) :
    SwfwFine mac i (.op (.readSwsm site) k) false := by
  refine fun hw hview => ⟨False.elim, fun hinv => ?_⟩
  have hholder : hw.holder ≠ some i := of_decide_eq_false hview
  have hinv' : smbi hw.swsm = hw.holder.isSome := hinv
  cases hset : smbi hw.swsm with
  | true =>
    rw [exec_readSwsm_of_set hset]
    refine ⟨trivial, fun _ _ => rfl, fun h => ⟨?_, hview ▸ hwait hw hset h⟩,
      fun h => Or.inl (hbad hw hholder h)⟩
    change smbi (hw.swsm ||| 1) = hw.holder.isSome
    rw [smbi_or_one, ← hinv', hset]
  | false =>
    have hnone : hw.holder = none := by
      rw [hset] at hinv'
      exact Option.isSome_eq_false_iff.mp hinv'.symm |> Option.isNone_iff_eq_none.mp
    have hexec : ((swfwSystem ι mac).exec i (.readSwsm site) hw).2 =
        { hw with swsm := hw.swsm ||| 1, holder := some i } := by
      change ({ hw with
        swsm := hw.swsm ||| 1
        holder := if smbi hw.swsm then hw.holder else some i } : SwfwHw ι) = _
      rw [hset]
      rfl
    have hok : SwfwOp.Ok (.readSwsm site) hw := by
      cases site with
      | lastSmbi => exact hset
      | _ => trivial
    rw [hexec]
    refine ⟨trivial, fun j hj => ?_, fun _ => ⟨smbi_or_one _, ?_⟩, fun h => absurd hok h⟩
    · change decide (some i = some j) = decide (hw.holder = some j)
      rw [hnone, decide_eq_false fun h => hj (Option.some.inj h).symm]
      rfl
    · change SwfwFine mac i _ (decide (some i = some i))
      rw [decide_eq_true rfl]
      exact hgot _ hset

theorem fine_writeSwsm {v : U32} (hv : smbi v = false) (h : SwfwFine mac i (k 0) false) :
    SwfwFine mac i (.op (.writeSwsm v) k) true := by
  refine fun hw hview => ⟨False.elim, fun _ => ?_⟩
  have hholder : hw.holder = some i := of_decide_eq_true hview
  have hexec : ((swfwSystem ι mac).exec i (.writeSwsm v) hw).2 =
      { hw with swsm := v, holder := none } := by
    change ({ hw with swsm := v, holder := if smbi v then hw.holder else none } : SwfwHw ι) = _
    rw [hv]
    rfl
  rw [hexec]
  refine ⟨trivial, fun j hj => ?_, fun _ => ⟨hv, h⟩, fun hbad => absurd trivial hbad⟩
  change decide (none = some j) = decide (hw.holder = some j)
  rw [hholder, decide_eq_false fun h => hj (Option.some.inj h).symm]
  rfl

end Rules

section Routines

variable [DecidableEq ι] {mac : MacType} {i : ι}

theorem fine_releaseSwfwSyncSemaphore {f : PUnit → SwfwProg SwfwRet}
    (h : SwfwFine mac i (f ⟨⟩) false) :
    SwfwFine mac i (releaseSwfwSyncSemaphore >>= f) true :=
  fine_readSync_other fun _ => fine_writeSync
    (fine_readSwsm_true fun v _ => fine_writeSwsm (smbi_and_not v) h)

section

variable {f : Bool → SwfwProg SwfwRet}

theorem fine_smbiPoll (hgot : SwfwFine mac i (f true) true)
    (hfail : SwfwFine mac i (f false) false) (n : ℕ) :
    SwfwFine mac i (smbiPoll .other n >>= f) false := by
  induction n with
  | zero => exact hfail
  | succ n ih =>
    rw [smbiPoll_bind, ite_self]
    refine fine_readSwsm_false (fun v hv => ?_) (fun hw hset _ => ?_) fun _ _ hbad =>
      absurd trivial hbad
    · rw [if_neg (by rw [hv]; decide)]
      exact hgot
    · rw [if_pos hset]
      exact ih

/-- If even the last attempt fails, the agent goes on without `SMBI`. -/
theorem fine_smbiPoll_last (hgot : SwfwFine mac i (f true) true)
    (hdoom : ∀ hw : SwfwHw ι, hw.holder ≠ some i → SwfwDoomed mac i (f false) hw) (n : ℕ) :
    SwfwFine mac i (smbiPoll .lastSmbi (n + 1) >>= f) false := by
  induction n with
  | zero =>
    rw [smbiPoll_bind]
    refine fine_readSwsm_false (fun v hv => ?_) (fun hw hset hok => ?_) fun hw hholder hbad => ?_
    · rw [if_neg (by rw [hv]; decide)]
      exact hgot
    · exact absurd (hset.symm.trans hok) (by decide)
    · rw [if_pos (show smbi hw.swsm = true from Bool.not_eq_false _ ▸ hbad)]
      exact hdoom _ hholder
  | succ n ih =>
    rw [smbiPoll_bind]
    refine fine_readSwsm_false (fun v hv => ?_) (fun hw hset _ => ?_) fun _ _ hbad =>
      absurd trivial hbad
    · rw [if_neg (by rw [hv]; decide)]
      exact hgot
    · rw [if_pos hset]
      exact ih

theorem fine_regsmpPoll (hgot : SwfwFine mac i (f true) true)
    (hfail : SwfwFine mac i (f false) true) (n : ℕ) :
    SwfwFine mac i (regsmpPoll .other n >>= f) true := by
  induction n with
  | zero => exact hfail
  | succ n ih =>
    rw [regsmpPoll_bind, ite_self]
    refine fine_readSync_other fun v => ?_
    split
    · exact ih
    · exact hgot

theorem fine_regsmpPoll_last (hgot : SwfwFine mac i (f true) true)
    (hdoom : ∀ hw : SwfwHw ι, SwfwDoomed mac i (f false) hw) (n : ℕ) :
    SwfwFine mac i (regsmpPoll .lastRegsmp (n + 1) >>= f) true := by
  induction n with
  | zero =>
    rw [regsmpPoll_bind]
    refine fine_readSync (fun hw hok => ?_) fun hw _ _ hbad => ?_
    · rw [if_neg (by rw [show regsmp hw.sync = false from hok]; decide)]
      exact hgot
    · rw [if_pos (show regsmp hw.sync = true from Bool.not_eq_false _ ▸ hbad)]
      exact hdoom hw
  | succ n ih =>
    rw [regsmpPoll_bind]
    refine fine_readSync_other fun v => ?_
    split
    · exact ih
    · exact hgot

end

theorem fine_getSwfwSyncSemaphore {f : ℤ → SwfwProg SwfwRet}
    (hgot : SwfwFine mac i (f success) true) (hfail : SwfwFine mac i (f errEeprom) false) :
    SwfwFine mac i (getSwfwSyncSemaphore .other .other >>= f) false := by
  unfold getSwfwSyncSemaphore
  simp only [bind_assoc]
  refine fine_smbiPoll ?_ hfail 2000
  change SwfwFine mac i ((regsmpPoll .other 2000 >>= fun got => _) >>= f) true
  rw [bind_assoc]
  have hgive :
      SwfwFine mac i ((releaseSwfwSyncSemaphore >>= fun _ => pure errEeprom) >>= f) true := by
    rw [bind_assoc]
    exact fine_releaseSwfwSyncSemaphore hfail
  exact fine_regsmpPoll hgot hgive 2000

theorem fine_getSwfwSyncSemaphore_last {f : ℤ → SwfwProg SwfwRet}
    (hgot : SwfwFine mac i (f success) true)
    (hdoom : ∀ hw : SwfwHw ι, hw.holder ≠ some i → SwfwDoomed mac i (f errEeprom) hw) :
    SwfwFine mac i (getSwfwSyncSemaphore .lastSmbi .lastRegsmp >>= f) false := by
  unfold getSwfwSyncSemaphore
  simp only [bind_assoc]
  refine fine_smbiPoll_last ?_ hdoom 1999
  change SwfwFine mac i ((regsmpPoll .lastRegsmp 2000 >>= fun got => _) >>= f) true
  rw [bind_assoc]
  have hgive (hw : SwfwHw ι) :
      SwfwDoomed mac i ((releaseSwfwSyncSemaphore >>= fun _ => pure errEeprom) >>= f) hw := by
    rw [bind_assoc]
    refine doomed_releaseSwfwSyncSemaphore (fun hw hnone => hdoom hw ?_) hw
    rw [hnone]
    exact nofun
  exact fine_regsmpPoll_last hgot hgive 1999

theorem fine_release (mask : U32) : SwfwFine mac i (SwfwCall.prog mac (.release mask)) false := by
  unfold SwfwCall.prog releaseSwfwSyncX540
  simp only [bind_assoc]
  refine fine_getSwfwSyncSemaphore_last ?_ fun hw hholder => doomed_of_not_holder hholder
  exact fine_readSync_other fun _ => fine_writeSync (fine_releaseSwfwSyncSemaphore ⟨rfl, trivial⟩)

theorem fine_acquireForced (m : SwfwMasks) : SwfwFine mac i (acquireForced m) false := by
  refine fine_getSwfwSyncSemaphore ?_ ⟨rfl, trivial⟩
  refine fine_readSync (fun hw hok => ?_) fun hw hview hinv hbad => ?_
  · have hclear : hw.sync &&& m.sw = 0 := hok
    change SwfwFine mac i (if hw.sync &&& (m.fw ||| m.hw) ≠ 0 then _ else _) true
    split
    · exact fine_writeSync (fine_releaseSwfwSyncSemaphore ⟨rfl, hclear⟩)
    · rw [if_neg (not_not.mpr hclear)]
      exact fine_releaseSwfwSyncSemaphore ⟨rfl, trivial⟩
  · have hset : hw.sync &&& m.sw ≠ 0 := hbad
    change SwfwDoomed mac i (if hw.sync &&& (m.fw ||| m.hw) ≠ 0 then _ else _) hw
    by_cases hforce : hw.sync &&& (m.fw ||| m.hw) ≠ 0
    · rw [if_pos hforce]
      exact ⟨trivial, Or.inr (doomed_releaseSwfwSyncSemaphore
        (f := fun _ => pure (.acquired m.sw hw.sync)) (fun _ _ => hset) _)⟩
    · rw [if_neg hforce, if_pos hset]
      refine doomed_release_twice ?_
      rw [hinv, of_decide_eq_true hview]
      rfl

theorem fine_acquireLoop (m : SwfwMasks) (n : ℕ) : SwfwFine mac i (acquireLoop m n) false := by
  induction n with
  | zero => exact fine_acquireForced m
  | succ n ih =>
    refine fine_getSwfwSyncSemaphore ?_ ⟨rfl, trivial⟩
    refine fine_readSync_other fun v => ?_
    change SwfwFine mac i (if v &&& (m.fw ||| m.sw ||| m.hw) = 0 then _ else _) true
    split
    case isTrue hfree =>
      exact fine_writeSync (fine_releaseSwfwSyncSemaphore ⟨rfl, and_eq_zero_of_busy hfree⟩)
    · exact fine_releaseSwfwSyncSemaphore ih

theorem fine_prog (i : ι) (c : SwfwCall) : SwfwFine mac i (SwfwCall.prog mac c) false := by
  cases c with
  | acquire mask => exact fine_acquireLoop _ _
  | release mask => exact fine_release mask

end Routines

/-- All agents idle, `SMBI` clear, any contents otherwise. -/
def swfwStart (swsm sync : U32) : Pool ι (SwfwHw ι) SwfwOp U32 SwfwRet where
  shared := ⟨swsm &&& ~~~shl1 0, sync, none⟩
  agent := fun _ => .ret .released

theorem swfwStart_valid [DecidableEq ι] (mac : MacType) (swsm sync : U32) :
    (swfwOutline ι mac).Valid (swfwStart swsm sync) :=
  ⟨smbi_and_not swsm, fun _ => ⟨rfl, trivial⟩⟩

/-- **Mutual exclusion**, along any interleaving, exactly when every access meets the condition: the
read after the last attempt of an `acquire` finds none of the requested bits, and the last attempts
of a `release` find `SMBI` and `REGSMP` clear. -/
theorem swfw_exclusive_iff [DecidableEq ι] (mac : MacType) (swsm sync : U32)
    (es : List (Event ι SwfwCall SwfwEnv)) :
    Along (swfwSystem ι mac).next
        (fun s e => (swfwSystem ι mac).Keeps s e ∧
          (swfwSystem ι mac).Safe ((swfwSystem ι mac).next s e)) (swfwStart swsm sync) es ↔
      Along (swfwSystem ι mac).next (swfwSystem ι mac).Meets (swfwStart swsm sync) es :=
  Outline.along_iff fine_prog (swfwStart_valid mac swsm sync) es

section Broken

variable {mac : MacType} {i : ι}

/-- Run alone under no condition, the program comes to a violation. -/
abbrev SwfwBroken (mac : MacType) (i : ι) (p : SwfwProg SwfwRet) (hw : SwfwHw ι) : Prop :=
  (swfwSystem ι mac).lax.Doomed i p hw

theorem broken_getSwfwSyncSemaphore {f : ℤ → SwfwProg SwfwRet} {hw : SwfwHw ι}
    (hsmbi : smbi hw.swsm = false) (hregsmp : regsmp hw.sync = false)
    (hf : SwfwBroken mac i (f success) { hw with swsm := hw.swsm ||| 1, holder := some i }) :
    SwfwBroken mac i (getSwfwSyncSemaphore .other .other >>= f) hw := by
  have hno : ¬ smbi hw.swsm = true := by rw [hsmbi]; decide
  have hno' : ¬ regsmp hw.sync = true := by rw [hregsmp]; decide
  unfold getSwfwSyncSemaphore
  simp only [bind_assoc]
  rw [smbiPoll_bind]
  refine ⟨trivial, Or.inr ?_⟩
  change SwfwBroken mac i (if smbi hw.swsm = true then _ else _)
    { hw with swsm := hw.swsm ||| 1, holder := if smbi hw.swsm = true then hw.holder else some i }
  rw [if_neg hno, if_neg hno, if_pos rfl, bind_assoc, regsmpPoll_bind]
  refine ⟨trivial, Or.inr ?_⟩
  change SwfwBroken mac i (if regsmp hw.sync = true then _ else _) _
  rw [if_neg hno']
  exact hf

theorem broken_releaseSwfwSyncSemaphore {f : PUnit → SwfwProg SwfwRet} {hw : SwfwHw ι}
    (hf : SwfwBroken mac i (f ⟨⟩) ⟨hw.swsm &&& ~~~shl1 0, hw.sync &&& ~~~shl1 31, none⟩) :
    SwfwBroken mac i (releaseSwfwSyncSemaphore >>= f) hw := by
  refine ⟨trivial, Or.inr ⟨trivial, Or.inr ⟨trivial, Or.inr ⟨trivial, Or.inr ?_⟩⟩⟩⟩
  change SwfwBroken mac i (f ⟨⟩) ⟨hw.swsm &&& ~~~shl1 0, hw.sync &&& ~~~shl1 31,
    if smbi (hw.swsm &&& ~~~shl1 0) = true then _ else none⟩
  rw [smbi_and_not]
  exact hf

theorem broken_acquireLoop (n : ℕ) {hw : SwfwHw ι} (hsmbi : smbi hw.swsm = false)
    (hsync : hw.sync = 0x21) : SwfwBroken mac i (acquireLoop (swfwMasks 0x1) n) hw := by
  induction n generalizing hw with
  | zero =>
    refine broken_getSwfwSyncSemaphore hsmbi (by rw [hsync]; decide) ⟨trivial, Or.inr ?_⟩
    change SwfwBroken mac i (if hw.sync &&& ((swfwMasks 0x1).fw ||| (swfwMasks 0x1).hw) ≠ 0
      then _ else _) _
    rw [if_pos (by rw [hsync]; decide)]
    refine ⟨trivial, Or.inr (broken_releaseSwfwSyncSemaphore
      (f := fun _ => pure (.acquired (swfwMasks 0x1).sw hw.sync)) ?_)⟩
    change ¬ hw.sync &&& (swfwMasks 0x1).sw = 0
    rw [hsync]
    decide
  | succ n ih =>
    refine broken_getSwfwSyncSemaphore hsmbi (by rw [hsync]; decide) ⟨trivial, Or.inr ?_⟩
    change SwfwBroken mac i (if hw.sync &&& ((swfwMasks 0x1).fw ||| (swfwMasks 0x1).sw |||
      (swfwMasks 0x1).hw) = 0 then _ else _) _
    rw [if_neg (by rw [hsync]; decide)]
    have hsync' : hw.sync &&& ~~~shl1 31 = 0x21 := by
      rw [hsync]
      decide
    exact broken_releaseSwfwSyncSemaphore (ih (smbi_and_not _) hsync')

theorem broken_release {mask : U32} {j : ι} (hj : j ≠ i) {hw : SwfwHw ι}
    (hset : smbi hw.swsm = true) (hholder : hw.holder = some j) :
    SwfwBroken mac i (SwfwCall.prog mac (.release mask)) hw := by
  unfold SwfwCall.prog releaseSwfwSyncX540 getSwfwSyncSemaphore
  simp only [bind_assoc]
  refine doomed_smbiPoll (fun _ _ => trivial) (fun hw hheld => ?_) 2000 hset hholder
  refine ⟨trivial, Or.inr ⟨trivial, Or.inl fun hown => hj ?_⟩⟩
  exact Option.some.inj (hheld.symm.trans hown)

end Broken

/-- An agent is granted the NVM that other software holds; and one without `SMBI` writes the locked
register. -/
theorem swfw_forced_grant_and_unlocked_write :
    (∃ es, ¬ Along (swfwSystem Unit .macX540).next (swfwSystem Unit .macX540).Keeps
        (swfwStart 0 0x21) (.call () (.acquire 0x1) :: es)) ∧
      ∃ es, ¬ Along (swfwSystem Bool .macX540).next (swfwSystem Bool .macX540).Keeps
        (swfwStart 0 0)
        (.call true (.acquire 0x1) :: .step true :: .call false (.release 0x1) :: es) := by
  refine ⟨?_, ?_⟩
  · obtain ⟨es, hes⟩ := System.exists_not_keeps (S := swfwSystem Unit .macX540)
      (s := (swfwSystem Unit .macX540).next (swfwStart 0 0x21) (.call () (.acquire 0x1))) (i := ())
      rfl (broken_acquireLoop 200 (by decide) rfl)
    exact ⟨es, fun h => hes h.2⟩
  · obtain ⟨es, hes⟩ := System.exists_not_keeps (S := swfwSystem Bool .macX540)
      (s := run (swfwSystem Bool .macX540).next (swfwStart 0 0)
        [.call true (.acquire 0x1), .step true, .call false (.release 0x1)]) (i := false)
      rfl (broken_release (j := true) (by decide) (by decide) rfl)
    exact ⟨es, fun h => hes h.2.2.2⟩

end Ixgbe
