import Ixgbe.Hw.Basic
import Ixgbe.Library.EventRun

/-! # Pairing frames with PHY Rx timestamps

Frames wait on `ptp_skbs_e600`, timestamps on `rx_tstamps`, matched by sequence id. Each function is
one step. -/

namespace Ixgbe

open List Function

/-- By the order of receipt. `zc`, for a zero-copy ring, is not in the source. -/
structure HeldSkb where
  skb : ℕ
  seqId : BitVec 16
  acquired : ℕ
  /-- `skb_hwtstamps(skb)->hwtstamp`; zero is no timestamp. -/
  hwtstamp : ℕ := 0
  zc : Bool := false
  deriving DecidableEq, Repr

/-- Named by the order in which they were reported. -/
structure RxTstamp where
  tstamp : ℕ
  ns : ℕ
  seqId : BitVec 16
  acquired : ℕ
  deriving DecidableEq, Repr

/-- With both sequence ids and what the frame carried before. -/
structure Attachment where
  tstamp : ℕ
  skb : ℕ
  tstampSeq : BitVec 16
  skbSeq : BitVec 16
  before : ℕ
  deriving DecidableEq, Repr

/-- `lim` is the 500 ms in ticks. -/
def expired (lim now acquired : ℕ) : Bool := acquired + lim < now

/-- Expired ones are deleted on the way to the first that matches. -/
def takeTstamp (lim now : ℕ) (seq : BitVec 16) : List RxTstamp → Option RxTstamp × List RxTstamp
  | [] => (none, [])
  | t :: ts =>
    if expired lim now t.acquired then takeTstamp lim now seq ts
    else if seq ≠ t.seqId then
      let r := takeTstamp lim now seq ts
      (r.1, t :: r.2)
    else (some t, ts)

/-- The frame that is given the timestamp, as it was, and the new list. -/
def stampSkb (seq : BitVec 16) (ns : ℕ) : List HeldSkb → Option (HeldSkb × List HeldSkb)
  | [] => none
  | x :: xs =>
    if x.seqId ≠ seq then (stampSkb seq ns xs).map fun r => (r.1, x :: r.2)
    else some (x, { x with hwtstamp := ns } :: xs)

/-- Those that stay, passed up and freed, and the budget left. -/
structure HeldPass where
  left : List HeldSkb
  delivered : List HeldSkb
  freed : List HeldSkb
  budget : ℤ
  deriving DecidableEq, Repr

/-- It returns the number of delivered frames. -/
def ptpRxCompleteSkb (lim now : ℕ) : ℤ → List HeldSkb → HeldPass
  | budget, [] => ⟨[], [], [], budget⟩
  | budget, x :: xs =>
    if expired lim now x.acquired then
      let r := ptpRxCompleteSkb lim now budget xs
      { r with freed := x :: r.freed }
    else if x.hwtstamp ≠ 0 then
      if budget - 1 ≤ 0 then ⟨xs, [x], [], budget - 1⟩
      else
        let r := ptpRxCompleteSkb lim now (budget - 1) xs
        { r with delivered := x :: r.delivered }
    else
      let r := ptpRxCompleteSkb lim now budget xs
      { r with left := x :: r.left }

/-- The fields from `frames` on are not in the source. -/
structure PtpRx (n : ℕ) where
  ptpSkbs : Fin n → List HeldSkb := fun _ => []
  ptpHoldRxSkb : Fin n → Bool := fun _ => false
  rxTstamps : List RxTstamp := []
  jiffies : ℕ := 0
  frames : ℕ := 0
  tstamps : ℕ := 0
  delivered : List ℕ := []
  freed : List ℕ := []
  attached : List Attachment := []

variable {n : ℕ}

/-- The timestamp in its trailer, used if there is no header, is left out. -/
structure PhyFrame where
  hdr : Option (BitVec 16)
  alloc : Bool
  zc : Bool
  deriving DecidableEq, Repr

section

variable (lim : ℕ) (s : PtpRx n) (q : Fin n)

/-- For a frame that has just arrived at queue vector `q`. -/
def ptpRxPhytstamp (f : PhyFrame) : PtpRx n :=
  match f.hdr with
  | none => { s with ptpHoldRxSkb := update s.ptpHoldRxSkb q false }
  | some seq =>
    match takeTstamp lim s.jiffies seq s.rxTstamps with
    | (some t, ts) =>
      { s with
        ptpHoldRxSkb := update s.ptpHoldRxSkb q false
        rxTstamps := ts
        -- the frame's hwtstamp was set to zero before the search
        attached := ⟨t.tstamp, s.frames, t.seqId, seq, 0⟩ :: s.attached }
    | (none, ts) =>
      let s₁ := { s with
        ptpHoldRxSkb := update s.ptpHoldRxSkb q true, rxTstamps := ts }
      let held := s.ptpSkbs q ++ [⟨s.frames, seq, s.jiffies, 0, f.zc⟩]
      if f.alloc then { s₁ with ptpSkbs := update s.ptpSkbs q held } else s₁

/-- `ixgbe_clean_rx_irq_zc` does not look at the flag. -/
def deliverPhyFrame (f : PhyFrame) : PtpRx n :=
  if f.zc || !s.ptpHoldRxSkb q then { s with delivered := s.frames :: s.delivered }
  else { s with ptpHoldRxSkb := update s.ptpHoldRxSkb q false }

def rxPhyFrame (f : PhyFrame) : PtpRx n :=
  let s₁ := deliverPhyFrame (ptpRxPhytstamp lim s q f) q f
  { s₁ with frames := s.frames + 1 }

/-- From the first of the queue vectors `qs` on. -/
def ptpRxFindSkb (s : PtpRx n) (seq : BitVec 16) (ns : ℕ) :
    List (Fin n) → Option (HeldSkb × PtpRx n)
  | [] => none
  | q :: qs =>
    match stampSkb seq ns (s.ptpSkbs q) with
    | some (x, l) => some (x, { s with ptpSkbs := update s.ptpSkbs q l })
    | none => ptpRxFindSkb s seq ns qs

/-- `alloc` is the outcome of the allocation. -/
def ptpRxCompleteTstamp (seq : BitVec 16) (ns : ℕ) (alloc : Bool) : PtpRx n :=
  match ptpRxFindSkb s seq ns (List.finRange n) with
  | some (x, s₁) =>
    { s₁ with
      attached := ⟨s.tstamps, x.skb, seq, x.seqId, x.hwtstamp⟩ :: s.attached
      tstamps := s.tstamps + 1 }
  | none =>
    { s with
      rxTstamps := if alloc then s.rxTstamps ++ [⟨s.tstamps, ns, seq, s.jiffies⟩]
        else s.rxTstamps
      tstamps := s.tstamps + 1 }

def pollHeld (budget : ℤ) : PtpRx n :=
  let r := ptpRxCompleteSkb lim s.jiffies budget (s.ptpSkbs q)
  { s with
    ptpSkbs := update s.ptpSkbs q r.left
    delivered := r.delivered.map HeldSkb.skb ++ s.delivered
    freed := r.freed.map HeldSkb.skb ++ s.freed }

inductive PtpRxEvent (n : ℕ)
  | frame (q : Fin n) (f : PhyFrame)
  | fwTstamp (seq : BitVec 16) (ns : ℕ) (alloc : Bool)
  | poll (q : Fin n) (budget : ℤ)
  | tick (d : ℕ)
  deriving DecidableEq, Repr

def ptpRxStep : PtpRxEvent n → PtpRx n
  | .frame q f => rxPhyFrame lim s q f
  | .fwTstamp seq ns alloc => ptpRxCompleteTstamp s seq ns alloc
  | .poll q budget => pollHeld lim s q budget
  | .tick d => { s with jiffies := s.jiffies + d }

end

section

variable (lim now : ℕ) (seq : BitVec 16) (l : List RxTstamp)

theorem takeTstamp_subperm :
    ((takeTstamp lim now seq l).1.toList ++ (takeTstamp lim now seq l).2).Subperm l := by
  induction l with
  | nil => exact List.Subperm.refl _
  | cons t ts ih =>
    unfold takeTstamp
    split_ifs with hexp hseq
    · exact ih.trans (sublist_cons_self t ts).subperm
    · exact perm_middle.subperm.trans ((subperm_cons t).mpr ih)
    · exact List.Subperm.refl _

theorem takeTstamp_fst :
    (takeTstamp lim now seq l).1 =
      l.find? fun t => !expired lim now t.acquired && t.seqId == seq := by
  induction l with
  | nil => rfl
  | cons t ts ih =>
    unfold takeTstamp
    split_ifs with hexp hseq
    · rw [ih, List.find?_cons_of_neg (by simp [hexp])]
    · dsimp only
      rw [ih, List.find?_cons_of_neg (by simp [hseq.symm])]
    · rw [List.find?_cons_of_pos (by simp [hexp, not_not.mp hseq])]

theorem takeTstamp_ne_none_iff :
    (takeTstamp lim now seq l).1 ≠ none ↔
      ∃ t ∈ l, t.seqId = seq ∧ expired lim now t.acquired = false := by
  rw [takeTstamp_fst, ne_eq, List.find?_eq_none]
  simp [and_comm]

end

theorem stampSkb_eq (seq : BitVec 16) (ns : ℕ) (l : List HeldSkb) :
    (stampSkb seq ns l).map Prod.fst = l.find? fun x => x.seqId == seq := by
  induction l with
  | nil => rfl
  | cons x xs ih =>
    unfold stampSkb
    split_ifs with hseq
    · rw [List.find?_cons_of_neg (by simp [hseq]), ← ih, Option.map_map]
      rfl
    · rw [List.find?_cons_of_pos (by simp [not_not.mp hseq])]
      rfl

theorem stampSkb_tags {seq : BitVec 16} {ns : ℕ} {l l' : List HeldSkb} {x : HeldSkb}
    (h : stampSkb seq ns l = some (x, l')) :
    (l'.map fun y => (y.skb, y.zc)) = l.map fun y => (y.skb, y.zc) := by
  induction l generalizing l' with
  | nil => simp [stampSkb] at h
  | cons y ys ih =>
    unfold stampSkb at h
    split_ifs at h with hseq
    · obtain ⟨⟨z, l1⟩, hr, heq⟩ := Option.map_eq_some_iff.mp h
      obtain ⟨rfl, rfl⟩ := Prod.mk.inj heq
      rw [map_cons, map_cons, ih hr]
    · obtain ⟨rfl, rfl⟩ := Prod.mk.inj (Option.some.inj h)
      rfl

def readySkbs (lim now : ℕ) (l : List HeldSkb) : List HeldSkb :=
  l.filter fun x => !expired lim now x.acquired && x.hwtstamp != 0

theorem ptpRxCompleteSkb_perm (lim now : ℕ) (budget : ℤ) (l : List HeldSkb) :
    let r := ptpRxCompleteSkb lim now budget l
    (r.left ++ r.delivered ++ r.freed).Perm l := by
  induction l generalizing budget with
  | nil => exact .refl _
  | cons x xs ih =>
    unfold ptpRxCompleteSkb
    split_ifs with hexp hts hb
    · exact perm_middle.trans ((ih budget).cons x)
    · change (xs ++ [x] ++ []).Perm (x :: xs)
      rw [append_nil]
      exact perm_append_singleton x xs
    · dsimp only
      rw [append_assoc, cons_append]
      refine perm_middle.trans (List.Perm.cons x ?_)
      rw [← append_assoc]
      exact ih (budget - 1)
    · exact (ih budget).cons x

theorem ptpRxCompleteSkb_delivered (lim now : ℕ) (budget : ℤ) (l : List HeldSkb) :
    (ptpRxCompleteSkb lim now budget l).delivered =
      (readySkbs lim now l).take (max 1 budget.toNat) := by
  induction l generalizing budget with
  | nil => simp [ptpRxCompleteSkb, readySkbs]
  | cons x xs ih =>
    unfold ptpRxCompleteSkb
    split_ifs with hexp hts hb
    · rw [readySkbs, filter_cons_of_neg (by simp [hexp])]
      exact ih budget
    · rw [readySkbs, filter_cons_of_pos (by simp [hexp, hts]), show max 1 budget.toNat = 1 by
        omega]
      rfl
    · rw [readySkbs, filter_cons_of_pos (by simp [hexp, hts]),
        show max 1 budget.toNat = max 1 (budget - 1).toNat + 1 by omega, take_succ_cons]
      exact congrArg _ (ih (budget - 1))
    · rw [readySkbs, filter_cons_of_neg (by simp [hts])]
      exact ih budget

end Ixgbe
