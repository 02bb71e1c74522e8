import Ixgbe.Ptp.RxTimestamp

/-! # The NAPI poll

A poll should return its budget, or complete once and return less. `ixgbe_poll` takes PTP frames off
what it returns. -/

namespace Ixgbe

/-- Which function serves it, and what the two return for a budget. -/
structure PollRxRing where
  xskPool : Bool
  cleanRxIrq : ℤ → ℤ
  cleanRxIrqZc : ℤ → ℤ
  cleanRxIrq_nonneg : ∀ b, 1 ≤ b → 0 ≤ cleanRxIrq b
  cleanRxIrqZc_nonneg : ∀ b, 1 ≤ b → 0 ≤ cleanRxIrqZc b

/-- Its two clean functions say whether they are done. -/
structure PollTxRing where
  xskPool : Bool
  cleanTxIrq : ℤ → Bool
  cleanXdpTxIrq : Bool

structure QVector where
  tx : List PollTxRing
  rx : List PollRxRing
  ptpSkbs : List HeldSkb
  jiffies : ℕ
  /-- 500 ms in ticks. -/
  lim : ℕ
  rxItrDynamic : Bool
  down : Bool

/-- The return value, the completions, the held frames left, the throttle and the interrupt. -/
structure PollResult where
  ret : ℤ
  completeDone : List ℤ := []
  ptpSkbs : List HeldSkb
  setItr : Bool := false
  irqEnable : Bool := false

def PollTxRing.clean (budget : ℤ) (r : PollTxRing) : Bool :=
  if r.xskPool then r.cleanXdpTxIrq else r.cleanTxIrq budget

def PollRxRing.clean (budget : ℤ) (r : PollRxRing) : ℤ :=
  if r.xskPool then r.cleanRxIrqZc budget else r.cleanRxIrq budget

def perRingBudget (budget : ℤ) (rings : ℕ) : ℤ :=
  if 1 < rings then max (budget / rings) 1 else budget

def cleanRxRings (perRing : ℤ) : List PollRxRing → ℤ × Bool → ℤ × Bool
  | [], acc => acc
  | r :: rs, (workDone, cleanComplete) =>
    let cleaned := r.clean perRing
    cleanRxRings perRing rs (workDone + cleaned, if perRing ≤ cleaned then false else cleanComplete)

/-- `done` is what `napi_complete_done` answers. -/
def ixgbePoll (q : QVector) (done : Bool) (budget₀ : ℤ) : PollResult :=
  let cleanComplete := q.tx.all (PollTxRing.clean budget₀)
  -- called by netpoll
  if budget₀ ≤ 0 then { ret := budget₀, ptpSkbs := q.ptpSkbs }
  else
    let pass := ptpRxCompleteSkb q.lim q.jiffies budget₀ q.ptpSkbs
    let budget := pass.budget
    if budget ≤ 0 then { ret := budget, ptpSkbs := pass.left }
    else
      let perRing := perRingBudget budget q.rx.length
      let (workDone, cleanComplete) :=
        cleanRxRings perRing q.rx (pass.delivered.length, cleanComplete)
      if cleanComplete = false then { ret := budget, ptpSkbs := pass.left }
      else
        { ret := min workDone (budget - 1), completeDone := [workDone], ptpSkbs := pass.left
          setItr := done && q.rxItrDynamic, irqEnable := done && !q.down }

/-- Return the budget and leave completion alone, or complete once and return less. -/
def NapiContract (q : QVector) (done : Bool) (budget : ℤ) : Prop :=
  let r := ixgbePoll q done budget
  r.ret = budget ∧ r.completeDone = [] ∨
    r.completeDone.length = 1 ∧ 0 ≤ r.ret ∧ r.ret ≤ budget - 1

def QVector.ready (q : QVector) : List HeldSkb := readySkbs q.lim q.jiffies q.ptpSkbs

/-- Every ring is clean when they share what `k` held frames leave of the budget. -/
def RingsClean (q : QVector) (budget : ℤ) (k : ℕ) : Prop :=
  (∀ r ∈ q.tx, r.clean budget = true) ∧
    ∀ r ∈ q.rx, r.clean (perRingBudget (budget - k) q.rx.length) <
      perRingBudget (budget - k) q.rx.length

theorem ptpRxCompleteSkb_budget (lim now : ℕ) (budget : ℤ) (l : List HeldSkb) :
    (ptpRxCompleteSkb lim now budget l).budget =
      budget - (ptpRxCompleteSkb lim now budget l).delivered.length := by
  induction l generalizing budget with
  | nil => simp [ptpRxCompleteSkb]
  | cons x xs ih =>
    unfold ptpRxCompleteSkb
    split_ifs with hexp hts hb
    · exact ih budget
    · rfl
    · dsimp only
      rw [ih (budget - 1), List.length_cons]
      omega
    · exact ih budget

theorem ptpRxCompleteSkb_ready (lim now : ℕ) {budget : ℤ} (hb : 1 ≤ budget) (l : List HeldSkb) :
    (ptpRxCompleteSkb lim now budget l).budget = max 0 (budget - (readySkbs lim now l).length) := by
  rw [ptpRxCompleteSkb_budget, ptpRxCompleteSkb_delivered, List.length_take]
  omega

theorem perRingBudget_pos {budget : ℤ} (hb : 1 ≤ budget) (rings : ℕ) :
    1 ≤ perRingBudget budget rings := by
  unfold perRingBudget
  split_ifs
  · exact le_max_right _ _
  · exact hb

theorem PollRxRing.clean_nonneg (r : PollRxRing) {b : ℤ} (hb : 1 ≤ b) : 0 ≤ r.clean b := by
  unfold PollRxRing.clean
  split_ifs
  · exact r.cleanRxIrqZc_nonneg b hb
  · exact r.cleanRxIrq_nonneg b hb

theorem cleanRxRings_clean (b : ℤ) (rs : List PollRxRing) (w : ℤ) (c : Bool) :
    (cleanRxRings b rs (w, c)).2 = true ↔ c = true ∧ ∀ r ∈ rs, r.clean b < b := by
  induction rs generalizing w c with
  | nil => simp [cleanRxRings]
  | cons r rs ih =>
    rw [cleanRxRings, ih, List.forall_mem_cons]
    by_cases hle : b ≤ r.clean b
    · simp [hle, not_lt.mpr hle]
    · simp [hle, not_le.mp hle]

theorem cleanRxRings_nonneg {b : ℤ} (hb : 1 ≤ b) (rs : List PollRxRing) {w : ℤ} (hw : 0 ≤ w)
    (c : Bool) : 0 ≤ (cleanRxRings b rs (w, c)).1 := by
  induction rs generalizing w c with
  | nil => exact hw
  | cons r rs ih => exact ih (add_nonneg hw (r.clean_nonneg hb)) _

theorem ixgbePoll_cases {q : QVector} (done : Bool) {budget : ℤ} (hb : 1 ≤ budget) :
    let r := ixgbePoll q done budget
    let k := q.ready.length
    (budget ≤ k ∧ r.ret = 0 ∧ r.completeDone = []) ∨
      (k < budget ∧ ¬ RingsClean q budget k ∧ r.ret = budget - k ∧ r.completeDone = []) ∨
      (k < budget ∧ RingsClean q budget k ∧ r.completeDone.length = 1 ∧
        0 ≤ r.ret ∧ r.ret ≤ budget - k - 1) := by
  have hpass := ptpRxCompleteSkb_ready q.lim q.jiffies hb q.ptpSkbs
  change _ = max 0 (budget - q.ready.length) at hpass
  intro r k
  have hr : r = ixgbePoll q done budget := rfl
  unfold ixgbePoll at hr
  rw [if_neg (by omega)] at hr
  dsimp only at hr
  by_cases hk : budget ≤ k
  · rw [max_eq_left (by omega)] at hpass
    rw [hpass, if_pos le_rfl] at hr
    exact .inl ⟨hk, by rw [hr], by rw [hr]⟩
  · rw [max_eq_right (by omega)] at hpass
    rw [hpass, if_neg (by omega)] at hr
    set w := (ptpRxCompleteSkb q.lim q.jiffies budget q.ptpSkbs).delivered.length
    have hclean := cleanRxRings_clean (perRingBudget (budget - k) q.rx.length) q.rx w
      (q.tx.all (PollTxRing.clean budget))
    have hshare : 1 ≤ budget - k := by omega
    have hnonneg := cleanRxRings_nonneg (perRingBudget_pos hshare q.rx.length) q.rx
      (Int.natCast_nonneg w) (q.tx.all (PollTxRing.clean budget))
    rw [List.all_eq_true] at hclean
    refine .inr ?_
    by_cases hc : RingsClean q budget k
    · refine .inr ⟨not_le.mp hk, hc, ?_⟩
      rw [if_neg (by rw [hclean.mpr hc]; decide)] at hr
      rw [hr]
      exact ⟨rfl, le_min hnonneg (by omega), min_le_right _ _⟩
    · refine .inl ⟨not_le.mp hk, hc, ?_⟩
      rw [if_pos (Bool.eq_false_iff.mpr fun h => hc (hclean.mp h))] at hr
      rw [hr]
      exact ⟨rfl, rfl⟩

/-- **A poll keeps the contract exactly if no held frame is ready, or they leave some budget and
every ring comes out clean.** -/
theorem napiContract_iff (q : QVector) (done : Bool) (budget : ℤ) (hb : 1 ≤ budget) :
    NapiContract q done budget ↔
      q.ready = [] ∨ q.ready.length < budget ∧ RingsClean q budget q.ready.length := by
  have hempty : q.ready = [] ↔ q.ready.length = 0 := List.length_eq_zero_iff.symm
  rw [NapiContract, hempty]
  rcases ixgbePoll_cases (q := q) done hb with ⟨hk, hret, hdone⟩ | ⟨hk, hc, hret, hdone⟩ |
    ⟨hk, hc, hdone, hlo, hhi⟩
  · -- the frames used up the budget: zero is returned, and nothing is completed
    rw [hret, hdone]
    constructor
    · rintro (⟨heq, -⟩ | ⟨hlen, -⟩)
      · omega
      · exact absurd hlen (by decide)
    · rintro (h | ⟨h, -⟩) <;> omega
  · -- polling goes on, with what is left of the budget as the return value
    rw [hret, hdone]
    constructor
    · rintro (⟨heq, -⟩ | ⟨hlen, -⟩)
      · exact .inl (by omega)
      · exact absurd hlen (by decide)
    · rintro (h | ⟨-, h⟩)
      · exact .inl ⟨by omega, rfl⟩
      · exact absurd h hc
  · exact ⟨fun _ => .inr ⟨hk, hc⟩, fun _ => .inr ⟨hdone, hlo, by omega⟩⟩

def twoPackets : PollRxRing where
  xskPool := false
  cleanRxIrq b := min b 2
  cleanRxIrqZc b := b
  cleanRxIrq_nonneg b hb := by omega
  cleanRxIrqZc_nonneg b hb := by omega

def pollVector (held : List HeldSkb) : QVector where
  tx := []
  rx := [twoPackets]
  ptpSkbs := held
  jiffies := 10
  lim := 125
  rxItrDynamic := true
  down := false

theorem napiContract_one_held : NapiContract (pollVector [⟨0, 7, 9, 1000, false⟩]) true 64 :=
  (napiContract_iff _ _ _ (by decide)).mpr
    (.inr ⟨by decide, by simp [pollVector], by
      intro r hr
      rw [List.mem_singleton.mp hr]
      decide⟩)

/-- Budgets of 3 and 1 give 2 and 0, with nothing completed. -/
theorem poll_breaks_contract :
    (¬ NapiContract (pollVector [⟨0, 7, 9, 1000, false⟩]) true 3 ∧
      (ixgbePoll (pollVector [⟨0, 7, 9, 1000, false⟩]) true 3).ret = 2) ∧
    ¬ NapiContract (pollVector [⟨0, 7, 9, 1000, false⟩]) true 1 ∧
      (ixgbePoll (pollVector [⟨0, 7, 9, 1000, false⟩]) true 1).ret = 0 := by
  refine ⟨⟨?_, by decide⟩, ?_, by decide⟩ <;> unfold NapiContract <;> decide

end Ixgbe
