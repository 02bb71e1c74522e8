import Ixgbe.Xsk.TxRetire

/-! # A zero-copy ring with nothing left over

With at most `2 ^ 15` descriptors and a clean start each descriptor is retired once. -/

namespace Ixgbe

open EventRun Ring List Function

/-- `xdp_tx_active` counts the outstanding XDP frames, and a descriptor with `DD` at `next_rs_idx`
is outstanding. -/
structure ZcTx.Clear (s : ZcTx) : Prop where
  count_le : s.count ≤ 2 ^ 15
  active : s.xdpTxActive = (range' s.cleaned (s.sent - s.cleaned)).countP s.xdpAt
  ahead : s.dd s.nextRsIdx = true →
    s.cleaned + dist s.count s.nextToClean s.nextRsIdx < s.sent

section

variable {s : ZcTx}

theorem ZcTx.Inv.rsIdx_eq (hI : s.Inv) :
    s.nextRsIdx = (s.cleaned + dist s.count s.nextToClean s.nextRsIdx) % s.count := by
  rw [← hI.slot_eq, slot_dist hI.clean_lt hI.rsIdx]

theorem range'_split {c k t : ℕ} (hk : c + k ≤ t) :
    range' c (t - c) = range' c k ++ range' (c + k) (t - (c + k)) := by
  rw [range'_append_1]
  congr 1
  omega

section

variable (hC : s.Clear)

include hC

theorem ZcTx.Clear.active_le : s.xdpTxActive ≤ s.sent - s.cleaned := by
  rw [hC.active]
  exact countP_le_length.trans_eq (length_range' ..)

theorem ZcTx.Clear.retires (hI : s.Inv) (hdd : s.dd s.nextRsIdx = true) : s.Retires := by
  have hahead := hC.ahead hdd
  have hclean := hI.clean_lt
  have hcount := hC.count_le
  have hdist := dist_lt hI.pos s.nextToClean s.nextRsIdx
  refine ⟨?_, ?_, fun hactive k hk => ?_⟩
  · rw [hI.rsIdx_eq] at hdd
    exact ((hI.dd _ (Nat.le_add_right _ _) hahead).mp hdd).1.le
  · omega
  · have hnone := hC.active
    rw [hactive, eq_comm, countP_eq_zero] at hnone
    have hplain := hnone (s.cleaned + k) (mem_range'_1.mpr ⟨by omega, by omega⟩)
    rw [hI.slot_eq, hI.xdpf _ (by omega) (by omega), if_neg hplain]

theorem ZcTx.Clear.put (hI : s.Inv) {xdp : Option ℕ} {m i : ℕ} (rs : Bool)
    (hm : m = s.xdpTxActive + if xdp.isSome then 1 else 0)
    (hi : i = s.nextRsIdx ∨ i = s.nextToUse) :
    { s.put xdp rs with xdpTxActive := m, nextRsIdx := i }.Clear := by
  have hle := hI.cleaned_le
  refine ⟨hC.count_le, ?_, ?_⟩
  · dsimp only [ZcTx.put]
    have hsplit : s.sent + 1 - s.cleaned = (s.sent - s.cleaned) + 1 := by omega
    rw [hm, hC.active, hsplit, range'_1_concat, countP_append, countP_singleton,
      Nat.add_sub_cancel' (by omega), update_self]
    refine congrArg₂ (· + ·) (countP_congr fun d hd => ?_) rfl
    obtain ⟨-, hd⟩ := mem_range'_1.mp hd
    rw [update_of_ne (by omega)]
  · dsimp only [ZcTx.put]
    intro hdd
    by_cases hnew : i = s.nextToUse
    · rw [hnew, update_self] at hdd
      cases hdd
    · rw [update_of_ne hnew] at hdd
      rw [hi.resolve_right hnew] at hdd ⊢
      exact (hC.ahead hdd).trans (Nat.lt_succ_self _)

theorem ZcTx.Clear.xmitLoop (hI : s.Inv) (carrier : Bool) (budget avail : ℕ)
    (txDesc : Option ℕ) : (xmitZcLoop carrier budget avail s txDesc).1.Clear := by
  induction budget generalizing avail s txDesc with
  | zero => exact hC
  | succ budget ih =>
    unfold xmitZcLoop
    split
    · exact hC
    case isFalse hroom =>
      obtain ⟨hroom, -⟩ := not_or.mp hroom
      cases avail with
      | zero => exact hC
      | succ avail =>
        exact ih (hC.put hI false rfl (Or.inr rfl))
          ((hI.put hroom false (Or.inl rfl)).setRsIdx hI.use_lt) avail _

theorem ZcTx.Clear.xmit (hI : s.Inv) (carrier : Bool) (budget avail : ℕ) :
    (xmitZc carrier budget avail s).2.Clear := by
  have hloop := hC.xmitLoop hI carrier budget avail none
  unfold xmitZc
  dsimp only
  cases (xmitZcLoop carrier budget avail s none).2.1 with
  | none => exact hloop
  | some i => exact { hloop with }

theorem ZcTx.Clear.xdp (hI : s.Inv) (mapped : Bool) : (xmitXdpRing mapped s).Clear := by
  have hlt := hI.sent_lt
  have hcount := hC.count_le
  have hactive := hC.active_le
  unfold xmitXdpRing
  split
  · exact hC
  · refine hC.put hI true ?_ (Or.inl rfl)
    rw [inc16_eq (by omega)]
    rfl

theorem ZcTx.Clear.finish (hI : s.Inv) : (zcTxStep s .finish).Clear := by
  dsimp only [zcTxStep]
  split
  · exact hC
  · have hfin := hI.account.finished
    have hdone := hI.done_le
    have hlt := hI.sent_lt
    refine ⟨hC.count_le, hC.active, fun hdd => ?_⟩
    dsimp only at hdd ⊢
    by_cases hnew : s.nextRsIdx = s.done % s.count
    · -- the descriptor at next_rs_idx is the one that was just finished
      rw [hI.rsIdx_eq] at hnew
      have hdist := dist_lt hI.pos s.nextToClean s.nextRsIdx
      have := mod_inj (Nat.le_add_right _ _) (by omega) hfin (by omega) hnew
      omega
    · refine hC.ahead ?_
      by_cases hrs : s.rs (s.done % s.count) = true
      · rwa [if_pos hrs, update_of_ne hnew] at hdd
      · rwa [if_neg hrs] at hdd

theorem ZcTx.Clear.clean (hI : s.Inv) : (cleanXdpTx s).Clear := by
  by_cases hready : s.framesReady = 0
  · rw [cleanXdpTx_of_not_ready hready]
    exact hC
  · have hdd := ZcTx.dd_of_framesReady hready
    have hntc := hI.clean_nextToClean (hC.retires hI)
    rw [if_pos hdd] at hntc
    have hahead := hC.ahead hdd
    obtain ⟨-, -, hplain⟩ := hC.retires hI hdd
    have hlt := hI.sent_lt
    have hcount := hC.count_le
    rw [← hI.framesReady_eq hdd] at hahead hplain
    have hactive := hC.active
    rw [range'_split hahead.le, countP_append] at hactive
    obtain ⟨xdpf, m, heq, -, hm⟩ := hI.retire hahead.le hplain
    have hle := hC.active_le
    unfold cleanXdpTx at hntc ⊢
    rw [if_neg hready] at hntc ⊢
    rw [heq] at hntc ⊢
    refine ⟨hC.count_le, ?_, fun _ => ?_⟩
    · dsimp only
      omega
    · dsimp only at hntc ⊢
      rw [hntc, dist_self]
      exact hahead

theorem ZcTx.Clear.step (hI : s.Inv) (e : ZcTxEvent) :
    (zcTxStep s e).Inv ∧ (zcTxStep s e).Clear := by
  cases e with
  | clean carrier budget avail =>
    have hI' := hI.clean (hC.retires hI)
    exact ⟨hI'.xmit carrier budget avail, (hC.clean hI).xmit hI' carrier budget avail⟩
  | xdp mapped => exact ⟨hI.xdp mapped, hC.xdp hI mapped⟩
  | finish => exact ⟨hI.finish, hC.finish hI⟩

end

end

/-- **Every descriptor is retired once**, if the ring has at most `2 ^ 15` and starts clean. -/
theorem zcTx_once {s : ZcTx} (h : s.Configured) (hcount : s.count ≤ 2 ^ 15)
    (hactive : s.xdpTxActive = 0) (hdd : ∀ i, s.dd i = false) (es : List ZcTxEvent) :
    After zcTxStep (fun s => s.Accounted ∧ s.TornDown) s es := by
  have hC : s.Clear := by
    refine ⟨hcount, ?_, fun hset => ?_⟩
    · rw [hactive, h.cleaned, h.sent]
      rfl
    · rw [hdd] at hset
      cases hset
  exact after_of_inv (fun s e (hs : s.Inv ∧ s.Clear) _ => hs.2.step hs.1 e)
    (fun s hs => ⟨hs.1.account, hs.1.tornDown⟩) ⟨h.inv, hC⟩
    (along_of_forall s es fun _ _ => trivial)

theorem zcTx_once_two : After zcTxStep (fun s => s.Accounted ∧ s.TornDown)
    (configuredZcTx 20 0 fun _ => false)
    [.clean true 2 2, .finish, .finish, .xdp true, .clean true 0 0] :=
  zcTx_once (configuredZcTx_configured (by decide) _ _) (by decide) rfl (fun _ => rfl) _

end Ixgbe
