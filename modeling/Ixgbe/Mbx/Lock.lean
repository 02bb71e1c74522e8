import Ixgbe.Mbx.Pf

/-! # Who owns the mailbox

Only the owner of the lock should clear `PFU` or write `PFMBMEM`. But two threads that find `PFU`
clear both succeed, and `ixgbe_write_mbx_pf` releases a lock it did not get. -/

namespace Ixgbe

open Interleave EventRun Function MbxHw MbxPhase

variable {ι : Type}

def MbxPhase.IsOwner : MbxPhase → Prop
  | .owner _ => True
  | _ => False

/-- `PFU` is cleared by owners only, memory written while no other is one. -/
def MbxOp.Safe (i : ι) (o : MbxOp) (hw : MbxHw ι) : Prop :=
  match o with
  | .writeMailbox _ v => hw.pfu = true → mbxPfu v = false → (hw.phase i).IsOwner
  | .writeMem _ _ => ∀ j, j ≠ i → ¬ (hw.phase j).IsOwner
  | _ => True

/-- Both may be owners if neither has words left to write. -/
def MbxPhase.Compatible : MbxPhase → MbxPhase → Prop
  | .owner m, .owner n => m = 0 ∧ n = 0
  | _, _ => True

/-- **The condition on an access**, on the registers and phases before it. -/
def MbxOp.Ok (i : ι) (o : MbxOp) (hw : MbxHw ι) : Prop :=
  match o with
  | .readMailbox (.attempt true) => hw.pfu = false
  | .readMailbox (.verify size _) =>
    hw.pfu = true → ∀ j, j ≠ i → (MbxPhase.owner size).Compatible (hw.phase j)
  | .writeMailbox _ v =>
    mbxPfu v = true → (hw.pfu = true ∨ hw.vfu = false) → ∀ j, j ≠ i → hw.phase j ≠ .failed
  | _ => True

structure MbxCall where
  msg : MsgBuf
  size : ℕ

def mbxSystem (ι : Type) [DecidableEq ι] (vfId : ℕ) :
    System ι (MbxHw ι) MbxOp U32 ℤ MbxCall MbxEnv where
  exec := mbxExec
  prog := fun c => writeMbxPf vfId c.msg c.size
  env := mbxEnv
  safe := MbxOp.Safe
  retOk := fun _ => True
  ok := MbxOp.Ok

/-- `PFU` is clear while a thread is to release a lock it did not get. -/
structure MbxHw.Inv (hw : MbxHw ι) : Prop where
  compatible : ∀ i j, i ≠ j → (hw.phase i).Compatible (hw.phase j)
  failed : ∀ i, hw.phase i = .failed → hw.pfu = false

/-- The next words, or the release, of this thread break the property. -/
def MbxHw.Danger (i : ι) (hw : MbxHw ι) : Prop :=
  (hw.phase i = .failed ∧ hw.pfu = true) ∨
    ∃ n, hw.phase i = .owner (n + 1) ∧ ∃ j, j ≠ i ∧ (hw.phase j).IsOwner

def mbxOutline (ι : Type) [DecidableEq ι] (vfId : ℕ) : Outline (mbxSystem ι vfId) MbxPhase where
  inv := MbxHw.Inv
  view := fun i hw => hw.phase i
  idle := .out
  danger := MbxHw.Danger
  not_danger := by
    rintro i hw hidle (⟨hfailed, _⟩ | ⟨n, howner, _⟩)
    · exact absurd (hidle.symm.trans hfailed) (by decide)
    · exact nomatch hidle.symm.trans howner
  inv_env := fun _ _ h => ⟨h.compatible, h.failed⟩
  view_env := fun _ _ _ => rfl

@[simp] theorem mbxPfu_mailbox (hw : MbxHw ι) : mbxPfu hw.mailbox = hw.pfu := by
  unfold mbxPfu mailbox
  simp only [BitVec.getLsbD_or, BitVec.getLsbD_and]
  have hrest : (~~~(0xC : U32)).getLsbD 3 = false := by decide
  rw [hrest, Bool.and_false, Bool.false_or]
  cases hw.vfu <;> cases hw.pfu <;> decide

@[simp] theorem mbxPfu_or (v : U32) : mbxPfu (v ||| 0x8) = true := by
  unfold mbxPfu
  rw [BitVec.getLsbD_or]
  exact Bool.or_true _

@[simp] theorem mbxPfu_and_not (v : U32) : mbxPfu (v &&& ~~~0x8) = false := by
  unfold mbxPfu
  rw [BitVec.getLsbD_and]
  exact Bool.and_false _

theorem MbxPhase.Compatible.symm {p q : MbxPhase} (h : p.Compatible q) : q.Compatible p := by
  cases p <;> cases q <;> first | exact trivial | exact ⟨h.2, h.1⟩

theorem MbxPhase.not_isOwner {n : ℕ} {q : MbxPhase} (h : (owner (n + 1)).Compatible q) :
    ¬ q.IsOwner := by
  cases q with
  | owner m => exact fun _ => n.succ_ne_zero h.1
  | _ => exact id

theorem MbxPhase.compatible_of_not_isOwner (p : MbxPhase) {q : MbxPhase} (h : ¬ q.IsOwner) :
    p.Compatible q := by
  cases q with
  | owner m => exact absurd trivial h
  | _ => cases p <;> trivial

theorem MbxPhase.not_compatible {m : ℕ} {q : MbxPhase} (h : ¬ (owner m).Compatible q) :
    ∃ n, q = .owner n ∧ (m ≠ 0 ∨ n ≠ 0) := by
  cases q with
  | owner n => exact ⟨n, rfl, not_and_or.mp h⟩
  | _ => exact absurd trivial h

theorem MbxHw.not_danger {hw : MbxHw ι} {i : ι} (h : hw.phase i = .out ∨ hw.phase i = .owner 0) :
    ¬ hw.Danger i := by
  rintro (⟨hfailed, _⟩ | ⟨n, howner, _⟩)
  · rw [hfailed] at h
    exact absurd h (by decide)
  · rw [howner] at h
    rcases h with h | h
    · exact nomatch h
    · exact absurd (owner.inj h) n.succ_ne_zero

theorem MbxHw.Inv.congr {hw hw' : MbxHw ι} (h : hw.Inv) (hphase : hw'.phase = hw.phase)
    (hpfu : hw'.pfu = hw.pfu) : hw'.Inv :=
  ⟨by rw [hphase]; exact h.compatible, by rw [hphase, hpfu]; exact h.failed⟩

section Rules

variable [DecidableEq ι] {vfId : ℕ} {i : ι} {l : MbxPhase} {k : U32 → MbxProg ℤ}

abbrev MbxFine (vfId : ℕ) (i : ι) (p : MbxProg ℤ) (l : MbxPhase) : Prop :=
  (mbxOutline ι vfId).Fine i p l

theorem fine_frame {o : MbxOp} (hok : ∀ hw : MbxHw ι, MbxOp.Ok i o hw)
    (hsafe : ∀ hw : MbxHw ι, MbxOp.Safe i o hw)
    (hphase : ∀ hw : MbxHw ι, (mbxExec i o hw).2.phase = hw.phase)
    (hpfu : ∀ hw : MbxHw ι, (mbxExec i o hw).2.pfu = hw.pfu)
    (h : ∀ v, MbxFine vfId i (k v) l) : MbxFine vfId i (.op o k) l := by
  intro hw hview
  have hview' : (mbxExec i o hw).2.phase i = l := by
    rw [hphase]
    exact hview
  refine ⟨fun hdanger => ⟨hok hw, Or.inr ((h _).doomed hview' ?_)⟩, fun hinv =>
    ⟨hsafe hw, fun j _ => congrFun (hphase hw) j,
      fun _ => ⟨hinv.congr (hphase hw) (hpfu hw), ?_⟩, fun hbad => absurd (hok hw) hbad⟩⟩
  · change MbxHw.Danger i (mbxExec i o hw).2
    unfold MbxHw.Danger
    rw [hphase, hpfu]
    exact hdanger
  · change MbxFine vfId i _ ((mbxExec i o hw).2.phase i)
    rw [hview']
    exact h _

theorem fine_readPlain (h : ∀ v, MbxFine vfId i (k v) l) :
    MbxFine vfId i (.op (.readMailbox .plain) k) l :=
  fine_frame (fun _ => trivial) (fun _ => trivial) (fun hw => update_eq_self i hw.phase)
    (fun _ => rfl) h

theorem fine_readIcr (h : ∀ v, MbxFine vfId i (k v) l) : MbxFine vfId i (.op .readIcr k) l :=
  fine_frame (fun _ => trivial) (fun _ => trivial) (fun _ => rfl) (fun _ => rfl) h

variable {v : U32} {hw : MbxHw ι} {f : PUnit → MbxProg ℤ}

theorem fine_writeIcr (h : ∀ v, MbxFine vfId i (k v) l) : MbxFine vfId i (.op (.writeIcr v) k) l :=
  fine_frame (fun _ => trivial) (fun _ => trivial) (fun _ => rfl) (fun _ => rfl) h

theorem MbxHw.Inv.move (h : hw.Inv) {p : MbxPhase}
    (hp : ∀ j, j ≠ i → p.Compatible (hw.phase j)) (hfailed : p = .failed → hw.pfu = false) :
    (hw.move i p).Inv := by
  refine ⟨fun a b hab => ?_, ?_⟩
  · change (update hw.phase i p a).Compatible (update hw.phase i p b)
    by_cases hai : a = i
    · subst hai
      rw [update_self, update_of_ne (Ne.symm hab)]
      exact hp b (Ne.symm hab)
    · rw [update_of_ne hai]
      by_cases hbi : b = i
      · subst hbi
        rw [update_self]
        exact (hp a hai).symm
      · rw [update_of_ne hbi]
        exact h.compatible a b hab
  · exact (forall_update_iff hw.phase fun _ p => p = .failed → hw.pfu = false).mpr
      ⟨hfailed, fun a _ => h.failed a⟩

theorem MbxHw.move_of_ne {j : ι} (hj : j ≠ i) (p : MbxPhase) : (hw.move i p).phase j = hw.phase j :=
  update_of_ne hj ..

theorem MbxHw.move_self (p : MbxPhase) : (hw.move i p).phase i = p :=
  update_self ..

theorem MbxHw.move_phase (hw : MbxHw ι) : hw.move i (hw.phase i) = hw := by
  unfold move
  rw [update_eq_self]

/-- **The rule of a read** that takes the thread to phase `p`. -/
theorem fine_move {place : MbxRead} {p : MbxPhase} (hafter : place.after hw.pfu (hw.phase i) = p)
    (hinv : MbxOp.Ok i (.readMailbox place) hw → (hw.move i p).Inv)
    (h : MbxFine vfId i (k hw.mailbox) p)
    (hbad : ¬ MbxOp.Ok i (.readMailbox place) hw →
      (mbxSystem ι vfId).Doomed i (k hw.mailbox) (hw.move i p) ∨
        ∃ j, j ≠ i ∧ (hw.move i p).Danger j) :
    (mbxOutline ι vfId).Access i (.readMailbox place) k hw := by
  have hexec : ((mbxSystem ι vfId).exec i (.readMailbox place) hw).2 = hw.move i p :=
    congrArg (hw.move i) hafter
  rw [Outline.Access, hexec]
  refine ⟨trivial, fun j hj => move_of_ne hj _, fun hok => ⟨hinv hok, ?_⟩, hbad⟩
  change MbxFine vfId i _ ((hw.move i p).phase i)
  rw [move_self]
  exact h

theorem fine_stay {place : MbxRead} (hinv : hw.Inv)
    (hstay : place.after hw.pfu (hw.phase i) = hw.phase i)
    (hok : MbxOp.Ok i (.readMailbox place) hw) (h : MbxFine vfId i (k hw.mailbox) (hw.phase i)) :
    (mbxOutline ι vfId).Access i (.readMailbox place) k hw :=
  fine_move hstay (fun _ => hw.move_phase.symm ▸ hinv) h fun hbad => absurd hok hbad

theorem fine_readAttempt {last : Bool} (hclear : ∀ v, mbxPfu v = false → MbxFine vfId i (k v) .out)
    (hset : ∀ v, mbxPfu v = true →
      MbxFine vfId i (k v) (if last = true then .failed else .out)) :
    MbxFine vfId i (.op (.readMailbox (.attempt last)) k) .out := by
  intro hw hview
  refine ⟨fun hdanger => absurd hdanger (not_danger (Or.inl hview)), fun hinv => ?_⟩
  have hout : hw.phase i = .out := hview
  cases hpfu : hw.pfu with
  | false =>
    refine fine_stay hinv (by rw [hpfu]; rfl) ?_ ?_
    · cases last with
      | true => exact hpfu
      | false => trivial
    · rw [hout]
      exact hclear _ ((mbxPfu_mailbox hw).trans hpfu)
  | true =>
    have hv : mbxPfu hw.mailbox = true := (mbxPfu_mailbox hw).trans hpfu
    cases last with
    | false =>
      refine fine_stay hinv (by rw [hpfu]; rfl) trivial ?_
      rw [hout]
      exact hset _ hv
    | true =>
      refine fine_move (p := .failed) (by rw [hpfu]; rfl) (fun hok => ?_) (hset _ hv)
        fun _ => Or.inl ?_
      · exact absurd (hpfu.symm.trans hok) (by decide)
      · exact (hset _ hv).doomed (move_self _) (Or.inl ⟨move_self _, hpfu⟩)

theorem fine_readVerify {size : ℕ} {last : Bool}
    (hgot : ∀ v, mbxPfu v = true → MbxFine vfId i (k v) (.owner size))
    (hlost : ∀ v, mbxPfu v = false →
      MbxFine vfId i (k v) (if last = true then .failed else .out)) :
    MbxFine vfId i (.op (.readMailbox (.verify size last)) k) .out := by
  intro hw hview
  refine ⟨fun hdanger => absurd hdanger (not_danger (Or.inl hview)), fun hinv => ?_⟩
  have hout : hw.phase i = .out := hview
  cases hpfu : hw.pfu with
  | true =>
    have hv : mbxPfu hw.mailbox = true := (mbxPfu_mailbox hw).trans hpfu
    refine fine_move (p := .owner size) (if_pos hpfu) (fun hok => ?_) (hgot _ hv) fun hbad => ?_
    · exact hinv.move (hok hpfu) nofun
    · obtain ⟨_, hbad⟩ := Classical.not_imp.mp hbad
      push Not at hbad
      obtain ⟨j, hj, hclash⟩ := hbad
      obtain ⟨n, hn, hleft⟩ := not_compatible hclash
      have hjphase : (hw.move i (.owner size)).phase j = .owner n :=
        (move_of_ne hj _).trans hn
      by_cases hsize : size = 0
      · obtain ⟨n, rfl⟩ := Nat.exists_eq_succ_of_ne_zero (hleft.resolve_left (not_not.mpr hsize))
        refine Or.inr ⟨j, hj, Or.inr ⟨n, hjphase, i, Ne.symm hj, ?_⟩⟩
        rw [move_self]
        trivial
      · obtain ⟨m, rfl⟩ := Nat.exists_eq_succ_of_ne_zero hsize
        refine Or.inl ((hgot _ hv).doomed (move_self _)
          (Or.inr ⟨m, move_self _, j, hj, ?_⟩))
        rw [hjphase]
        trivial
  | false =>
    have hv : mbxPfu hw.mailbox = false := (mbxPfu_mailbox hw).trans hpfu
    have hok : MbxOp.Ok i (.readMailbox (.verify size last)) hw := fun hset =>
      absurd (hpfu.symm.trans hset) (by decide)
    cases last with
    | false =>
      refine fine_stay hinv (by rw [hpfu]; rfl) hok ?_
      rw [hout]
      exact hlost _ hv
    | true =>
      refine fine_move (p := .failed) (by rw [hpfu]; rfl) (fun _ => ?_) (hlost _ hv)
        fun hbad => absurd hok hbad
      exact hinv.move (fun _ _ => trivial) fun _ => hpfu

theorem fine_writeMailbox (hl : l = .out ∨ l = .owner 0)
    (hv : mbxPfu v = true ∨ l.IsOwner) (h : MbxFine vfId i (k 0) l) :
    MbxFine vfId i (.op (.writeMailbox false v) k) l := by
  intro hw hview
  have hphase : hw.phase i = l := hview
  refine ⟨fun hdanger => absurd hdanger (not_danger (hphase ▸ hl)), fun hinv =>
    ⟨fun _ hclear => ?_, fun _ _ => rfl, fun hok => ⟨⟨hinv.compatible, fun j hj => ?_⟩, ?_⟩,
      fun hbad => Or.inr ?_⟩⟩
  · rw [hphase]
    exact hv.resolve_left fun hset => absurd (hclear.symm.trans hset) (by decide)
  · change hw.phase j = .failed at hj
    have hji : j ≠ i := by
      rintro rfl
      rw [← hphase, hj] at hl
      exact absurd hl (by decide)
    by_contra hset
    obtain ⟨hpfu, hfree⟩ := Bool.and_eq_true_iff.mp (Bool.eq_true_of_not_eq_false hset)
    refine hok hpfu ?_ j hji hj
    rcases Bool.or_eq_true_iff.mp hfree with hset | hfree
    · exact Or.inl hset
    · exact Or.inr (by simpa using hfree)
  · change MbxFine vfId i (k 0) (hw.phase i)
    rw [hphase]
    exact h
  · obtain ⟨hpfu, hbad⟩ := Classical.not_imp.mp hbad
    obtain ⟨hfree, hbad⟩ := Classical.not_imp.mp hbad
    push Not at hbad
    obtain ⟨j, hj, hfailed⟩ := hbad
    refine ⟨j, hj, Or.inl ⟨hfailed, ?_⟩⟩
    change (mbxPfu v && (hw.pfu || !hw.vfu)) = true
    rcases hfree with hset | hfree
    · rw [hpfu, hset]
      rfl
    · rw [hpfu, hfree, Bool.not_false, Bool.or_true]
      rfl

theorem fine_writeRelease (hv : mbxPfu v = false) (hl : l = .failed ∨ l = .owner 0)
    (h : MbxFine vfId i (k 0) .out) : MbxFine vfId i (.op (.writeMailbox true v) k) l := by
  intro hw hview
  have hphase : hw.phase i = l := hview
  have hnoset : ¬ mbxPfu v = true := by
    rw [hv]
    decide
  have hok : MbxOp.Ok i (.writeMailbox true v) hw := fun hset => absurd hset hnoset
  refine ⟨fun hdanger => ⟨hok, Or.inl fun hsafe => ?_⟩,
    fun hinv => ⟨fun hpfu _ => ?_, fun j hj => ?_,
    fun _ => ⟨⟨fun a b hab => ?_, fun _ _ => ?_⟩, ?_⟩, fun hbad => absurd hok hbad⟩⟩
  · rcases hdanger with ⟨hfailed, hpfu⟩ | hwords
    · have howner := hsafe hpfu hv
      rw [hfailed] at howner
      exact howner
    · obtain ⟨n, hn, _⟩ := hwords
      rw [← hphase, hn] at hl
      rcases hl with hl | hl
      · exact nomatch hl
      · exact absurd (owner.inj hl) n.succ_ne_zero
  · rw [hphase]
    rcases hl with rfl | rfl
    · exact absurd ((hinv.failed i hphase).symm.trans hpfu) (by decide)
    · trivial
  · exact update_of_ne hj ..
  · have hmove : (hw.move i .out).Inv := hinv.move (fun _ _ => trivial) nofun
    exact hmove.compatible a b hab
  · change (mbxPfu v && _) = false
    rw [hv]
    rfl
  · change MbxFine vfId i (k 0) ((hw.move i .out).phase i)
    rw [move_self]
    exact h

theorem fine_writeMem {a n : ℕ} (h : MbxFine vfId i (k 0) (.owner n)) :
    MbxFine vfId i (.op (.writeMem a v) k) (.owner (n + 1)) := by
  intro hw hview
  have hphase : hw.phase i = .owner (n + 1) := hview
  have hafter : (hw.phase i).afterWord = .owner n := by
    rw [hphase]
    rfl
  have hothers (hinv : hw.Inv) (j : ι) (hj : j ≠ i) : ¬ (hw.phase j).IsOwner := by
    have hcompat := hinv.compatible i j (Ne.symm hj)
    rw [hphase] at hcompat
    exact not_isOwner hcompat
  refine ⟨fun hdanger => ⟨trivial, Or.inl fun hsafe => ?_⟩, fun hinv => ⟨hothers hinv,
    fun j hj => ?_, fun _ => ⟨?_, ?_⟩, fun hbad => absurd trivial hbad⟩⟩
  · rcases hdanger with ⟨hfailed, _⟩ | ⟨_, _, j, hj, howner⟩
    · exact nomatch hfailed.symm.trans hphase
    · exact hsafe j hj howner
  · exact update_of_ne hj ..
  · have hmove : (hw.move i (.owner n)).Inv := hinv.move
      (fun j hj => compatible_of_not_isOwner _ (hothers hinv j hj)) nofun
    rw [← hafter] at hmove
    exact hmove.congr rfl rfl
  · change MbxFine vfId i (k 0) (update hw.phase i (hw.phase i).afterWord i)
    rw [update_self, hafter]
    exact h

theorem fine_clearIcr {m : U32} {p : MbxProg ℤ} (h : MbxFine vfId i p l) :
    MbxFine vfId i (.op .readIcr fun _ => .op (.writeIcr m) fun _ => p) l :=
  fine_readIcr fun _ => fine_writeIcr fun _ => h

theorem fine_copyMsg (msg : MsgBuf) (h : MbxFine vfId i (f ⟨⟩) (.owner 0))
    (a n : ℕ) : MbxFine vfId i (copyMsg msg a n >>= f) (.owner n) := by
  induction n generalizing a with
  | zero => exact h
  | succ n ih => exact fine_writeMem (ih (a + 1))

theorem fine_pollForAck (vf : ℕ) (h : MbxFine vfId i (f ⟨⟩) l) (n : ℕ) :
    MbxFine vfId i (pollForAck vf n >>= f) l := by
  induction n with
  | zero => exact h
  | succ n ih =>
    refine fine_readIcr fun v => ?_
    change MbxFine vfId i (((if v &&& (0x10000 <<< (vf % 16)) ≠ 0 then
      (clearAckPf vf >>= fun _ => pure success) else pure errMbx) >>= fun err =>
        if err = success then pure ⟨⟩ else pollForAck vf n) >>= f) l
    split
    · exact fine_clearIcr h
    · exact ih

theorem fine_sendMbxPf (vf : ℕ) (msg : MsgBuf) (size : ℕ) (h : MbxFine vfId i (f ⟨⟩) (.owner 0)) :
    MbxFine vfId i (sendMbxPf vf msg size >>= f) (.owner size) := by
  unfold sendMbxPf
  simp only [Prog.bind_assoc]
  refine fine_clearIcr (fine_clearIcr (fine_copyMsg msg ?_ 0 size))
  refine fine_readPlain fun v => fine_writeMailbox (Or.inr rfl) (Or.inr trivial) ?_
  split
  · exact fine_pollForAck vf h mbxTimeout
  · exact h

theorem fine_releaseMbxLockPf (hl : l = .failed ∨ l = .owner 0)
    (h : MbxFine vfId i (f ⟨⟩) .out) : MbxFine vfId i (releaseMbxLockPf >>= f) l :=
  fine_readPlain fun v => fine_writeRelease (mbxPfu_and_not v) hl h

theorem fine_obtainLoop (size : ℕ) {f : ℤ → MbxProg ℤ}
    (hgot : MbxFine vfId i (f success) (.owner size))
    (hfail : MbxFine vfId i (f errTimeout) .failed) (n : ℕ) :
    MbxFine vfId i (obtainLoop size (n + 1) >>= f) .out := by
  -- what follows an attempt that came to nothing
  have hagain : MbxFine vfId i (obtainLoop size n >>= f)
      (if decide (n = 0) = true then .failed else .out) := by
    cases n with
    | zero => exact hfail
    | succ n => exact fine_obtainLoop size hgot hfail n
  refine fine_readAttempt (fun v hv => ?_) fun v hv => ?_
  · change MbxFine vfId i ((if mbxPfu v = true then obtainLoop size n else _) >>= f) .out
    rw [if_neg (by rw [hv]; decide)]
    refine fine_writeMailbox (Or.inl rfl) (Or.inl (mbxPfu_or v)) (fine_readVerify (fun v hv => ?_)
      fun v hv => ?_)
    · change MbxFine vfId i ((if mbxPfu v = true then pure success else obtainLoop size n) >>= f) _
      rw [if_pos hv]
      exact hgot
    · change MbxFine vfId i ((if mbxPfu v = true then pure success else obtainLoop size n) >>= f) _
      rw [if_neg (by rw [hv]; decide)]
      exact hagain
  · change MbxFine vfId i ((if mbxPfu v = true then obtainLoop size n else _) >>= f) _
    rw [if_pos hv]
    exact hagain

theorem fine_writeMbxPf (i : ι) (c : MbxCall) :
    MbxFine vfId i (writeMbxPf vfId c.msg c.size) .out := by
  refine fine_obtainLoop c.size ?_ ?_ 1999
  · exact fine_sendMbxPf vfId c.msg c.size (fine_releaseMbxLockPf (Or.inr rfl) ⟨rfl, trivial⟩)
  · exact fine_releaseMbxLockPf (Or.inl rfl) ⟨rfl, trivial⟩

end Rules

/-- Any contents of the registers, no thread in the routine. -/
def mbxStart (pfu vfu : Bool) (rest icr : U32) (mem : ℕ → U32) : Pool ι (MbxHw ι) MbxOp U32 ℤ where
  shared := ⟨pfu, vfu, rest, icr, mem, fun _ => .out⟩
  agent := fun _ => .ret success

theorem mbxStart_valid [DecidableEq ι] (vfId : ℕ) (pfu vfu : Bool) (rest icr : U32)
    (mem : ℕ → U32) : (mbxOutline ι vfId).Valid (mbxStart pfu vfu rest icr mem) :=
  ⟨⟨fun _ _ _ => trivial, fun _ => nofun⟩, fun _ => ⟨rfl, trivial⟩⟩

/-- **Ownership of the mailbox**, along any interleaving with the VF, exactly when every access
meets the condition. -/
theorem mbx_owner_iff [DecidableEq ι] (vfId : ℕ) (pfu vfu : Bool) (rest icr : U32) (mem : ℕ → U32)
    (es : List (Event ι MbxCall MbxEnv)) :
    Along (mbxSystem ι vfId).next
        (fun s e => (mbxSystem ι vfId).Keeps s e ∧
          (mbxSystem ι vfId).Safe ((mbxSystem ι vfId).next s e))
        (mbxStart pfu vfu rest icr mem) es ↔
      Along (mbxSystem ι vfId).next (mbxSystem ι vfId).Meets (mbxStart pfu vfu rest icr mem) es :=
  Outline.along_iff fine_writeMbxPf (mbxStart_valid vfId pfu vfu rest icr mem) es

section Broken

variable [DecidableEq ι] {vfId : ℕ} {i : ι}

/-- Run alone under no condition, the program comes to a violation. -/
abbrev MbxBroken (vfId : ℕ) (i : ι) (p : MbxProg ℤ) (hw : MbxHw ι) : Prop :=
  (mbxSystem ι vfId).lax.Doomed i p hw

theorem broken_obtainLoop {size : ℕ} {f : ℤ → MbxProg ℤ}
    (hf : ∀ hw : MbxHw ι, hw.pfu = true → ¬ (hw.phase i).IsOwner →
      MbxBroken vfId i (f errTimeout) hw)
    (n : ℕ) {hw : MbxHw ι} (hpfu : hw.pfu = true) (hphase : ¬ (hw.phase i).IsOwner) :
    MbxBroken vfId i (obtainLoop size n >>= f) hw := by
  induction n generalizing hw with
  | zero => exact hf hw hpfu hphase
  | succ n ih =>
    refine ⟨trivial, Or.inr ?_⟩
    change MbxBroken vfId i ((if mbxPfu hw.mailbox = true then obtainLoop size n else _) >>= f)
      (hw.move i (if (hw.pfu && decide (n = 0)) = true then .failed else hw.phase i))
    rw [if_pos ((mbxPfu_mailbox hw).trans hpfu)]
    refine ih hpfu ?_
    rw [move_self]
    split
    · exact id
    · exact hphase

theorem broken_writeMbxPf {msg : MsgBuf} {size : ℕ} {hw : MbxHw ι} (hpfu : hw.pfu = true)
    (hphase : ¬ (hw.phase i).IsOwner) : MbxBroken vfId i (writeMbxPf vfId msg size) hw := by
  refine broken_obtainLoop (fun hw hpfu hphase => ?_) 2000 hpfu hphase
  refine ⟨trivial, Or.inr ⟨trivial, Or.inl fun hsafe => hphase ?_⟩⟩
  have howner := hsafe hpfu (mbxPfu_and_not _)
  change ((hw.move i (hw.phase i)).phase i).IsOwner at howner
  rwa [move_self] at howner

end Broken

def oneWord : MbxCall := ⟨fun _ => 0x1, 1⟩

/-- After 2000 attempts a thread clears the `PFU` of another; and two that find it clear both
succeed. -/
theorem mbx_foreign_release_and_two_owners :
    (∃ es, ¬ Along (mbxSystem Bool 0).next (mbxSystem Bool 0).Keeps
        (mbxStart false false 0 0 fun _ => 0)
        (.call true oneWord :: .step true :: .step true :: .step true ::
          .call false oneWord :: es)) ∧
      ∃ es, ¬ Along (mbxSystem Bool 0).next (mbxSystem Bool 0).Keeps
        (mbxStart false false 0 0 fun _ => 0)
        (.call true oneWord :: .call false oneWord :: .step true :: .step false :: .step true ::
          .step true :: .step false :: .step false :: es) := by
  refine ⟨?_, ?_⟩
  · obtain ⟨es, hes⟩ := System.exists_not_keeps (S := mbxSystem Bool 0)
      (s := run (mbxSystem Bool 0).next (mbxStart false false 0 0 fun _ => 0)
        [.call true oneWord, .step true, .step true, .step true, .call false oneWord]) (i := false)
      rfl (broken_writeMbxPf (by decide) id)
    exact ⟨es, fun h => hes h.2.2.2.2.2⟩
  · obtain ⟨es, hes⟩ := System.exists_not_keeps (S := mbxSystem Bool 0)
      (s := run (mbxSystem Bool 0).next (mbxStart false false 0 0 fun _ => 0)
        [.call true oneWord, .call false oneWord, .step true, .step false, .step true, .step true,
          .step false, .step false]) (i := false)
      rfl ⟨trivial, Or.inr ⟨trivial, Or.inr ⟨trivial, Or.inr ⟨trivial, Or.inr ⟨trivial,
        Or.inl fun hsafe => hsafe true (by decide) trivial⟩⟩⟩⟩⟩
    exact ⟨es, fun h => hes h.2.2.2.2.2.2.2.2⟩

end Ixgbe
