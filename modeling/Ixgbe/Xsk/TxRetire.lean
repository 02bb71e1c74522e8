import Ixgbe.Xsk.Tx

/-! # What a zero-copy Tx clean retires

Every descriptor once, after the hardware is done, unless `next_rs_idx` is left over. -/

namespace Ixgbe

open EventRun Ring Function List Nat

/-- Retired descriptors are finished, zero-copy ones reported to the pool, and XDP frames returned.
-/
structure ZcTx.Accounted (s : ZcTx) : Prop where
  index : s.nextToClean = s.cleaned % s.count
  finished : s.cleaned ≤ s.done
  completed : s.completed.sum = (range s.cleaned).countP fun d => !s.xdpAt d
  returned : s.returned.Perm ((range s.cleaned).filter s.xdpAt)

/-- Were the ring torn down now, everything sent would be accounted for. -/
structure ZcTx.TornDown (s : ZcTx) : Prop where
  completed : (xskCleanTxRing s).completed.sum = (range s.sent).countP fun d => !s.xdpAt d
  returned : (xskCleanTxRing s).returned.Perm ((range s.sent).filter s.xdpAt)

/-- `DD` is set on every `RS` descriptor between `next_to_clean` and `next_to_use`. -/
def ZcTx.AllDone (s : ZcTx) : Prop :=
  ∀ k < dist s.count s.nextToClean s.nextToUse, s.rs (slot s.count s.nextToClean k) = true →
    s.dd (slot s.count s.nextToClean k) = true

instance : DecidablePred ZcTx.AllDone := fun s =>
  inferInstanceAs (Decidable (∀ k < dist s.count s.nextToClean s.nextToUse,
    s.rs (slot s.count s.nextToClean k) = true → s.dd (slot s.count s.nextToClean k) = true))

/-- A clean that finds everything done brings `next_to_clean` to where `next_to_use` was. -/
def ZcTx.Reaches (s : ZcTx) : ZcTxEvent → Prop
  | .clean carrier budget avail => s.AllDone →
      (zcTxStep s (.clean carrier budget avail)).nextToClean = s.nextToUse
  | _ => True

/-- With `DD` at `next_rs_idx`: finished, an end in 16 bits, and with `xdp_tx_active` at zero no XDP
frame. -/
structure ZcTx.Retires (s : ZcTx) : Prop where
  finished : s.cleaned + dist s.count s.nextToClean s.nextRsIdx ≤ s.done
  lt : s.nextToClean + dist s.count s.nextToClean s.nextRsIdx < 2 ^ 16
  plain : s.xdpTxActive = 0 → ∀ k < dist s.count s.nextToClean s.nextRsIdx,
    s.xdpf (slot s.count s.nextToClean k) = none

/-- What it retires is in order; and if everything is done, the ring is empty, or `next_rs_idx` is
`next_to_use` and has `DD`. -/
def ZcTx.CleansAll (s : ZcTx) : ZcTxEvent → Prop
  | .clean _ _ _ => (s.dd s.nextRsIdx = true → s.Retires) ∧
      (s.AllDone → s.nextToClean = s.nextToUse ∨
        s.dd s.nextRsIdx = true ∧ s.nextRsIdx = s.nextToUse)
  | _ => True

/-- Retired up to `cleaned`, finished up to `done`, sent up to `sent`. -/
structure ZcTx.Inv (s : ZcTx) : Prop where
  pos : 0 < s.count
  lt16 : s.count < 2 ^ 16
  rsIdx : s.nextRsIdx < s.count
  use : s.nextToUse = s.sent % s.count
  done_le : s.done ≤ s.sent
  sent_lt : s.sent < s.cleaned + s.count
  xdpf : ∀ d, s.cleaned ≤ d → d < s.sent →
    s.xdpf (d % s.count) = if s.xdpAt d then some d else none
  dd : ∀ d, s.cleaned ≤ d → d < s.sent →
    (s.dd (d % s.count) = true ↔ d < s.done ∧ s.rs (d % s.count) = true)
  account : s.Accounted

section

variable {s : ZcTx}

theorem ZcTx.Inv.clean_lt (hI : s.Inv) : s.nextToClean < s.count := by
  rw [hI.account.index]
  exact mod_lt _ hI.pos

theorem ZcTx.Inv.use_lt (hI : s.Inv) : s.nextToUse < s.count := by
  rw [hI.use]
  exact mod_lt _ hI.pos

theorem ZcTx.Inv.slot_eq (hI : s.Inv) (k : ℕ) :
    slot s.count s.nextToClean k = (s.cleaned + k) % s.count := by
  rw [hI.account.index, slot_mod]

theorem ZcTx.Inv.cleaned_le (hI : s.Inv) : s.cleaned ≤ s.sent :=
  hI.account.finished.trans hI.done_le

theorem ZcTx.Inv.use_eq (hI : s.Inv) :
    s.nextToUse = slot s.count s.nextToClean (s.sent - s.cleaned) := by
  rw [hI.slot_eq, Nat.add_sub_cancel' hI.cleaned_le, hI.use]

theorem ZcTx.Inv.dist_use (hI : s.Inv) :
    dist s.count s.nextToClean s.nextToUse = s.sent - s.cleaned := by
  have hlt := hI.sent_lt
  rw [hI.use_eq, dist_slot hI.clean_lt (by have := hI.pos; omega)]

theorem ZcTx.Inv.unused_eq (hI : s.Inv) : s.unused = s.cleaned + s.count - 1 - s.sent := by
  have hle := hI.cleaned_le
  have hlt := hI.sent_lt
  rw [ZcTx.unused, hI.use_eq, descUnused_slot hI.lt16 hI.clean_lt (by omega)]
  omega

theorem ZcTx.Accounted.congr {s' : ZcTx} (hA : s.Accounted) (hcount : s'.count = s.count)
    (hntc : s'.nextToClean = s.nextToClean) (hcleaned : s'.cleaned = s.cleaned)
    (hdone : s.done ≤ s'.done) (hcompleted : s'.completed = s.completed)
    (hreturned : s'.returned = s.returned) (hxdp : ∀ d < s.cleaned, s'.xdpAt d = s.xdpAt d) :
    s'.Accounted := by
  refine ⟨?_, ?_, ?_, ?_⟩
  · rw [hntc, hcleaned, hcount]
    exact hA.index
  · rw [hcleaned]
    exact hA.finished.trans hdone
  · rw [hcompleted, hcleaned, hA.completed]
    refine countP_congr fun d hd => ?_
    rw [hxdp d (mem_range.mp hd)]
  · rw [hreturned, hcleaned]
    refine hA.returned.trans (List.Perm.of_eq (filter_congr fun d hd => ?_))
    rw [hxdp d (mem_range.mp hd)]

theorem ZcTx.Inv.put (hI : s.Inv) (hroom : s.unused ≠ 0) {xdp : Option ℕ} (rs : Bool)
    (hxdp : xdp = none ∨ xdp = some s.sent) : (s.put xdp rs).Inv := by
  have hfin := hI.account.finished
  have hdone := hI.done_le
  rw [hI.unused_eq] at hroom
  have hother : ∀ d, s.cleaned ≤ d → d < s.sent → d % s.count ≠ s.sent % s.count :=
    fun d hd hd' => mod_ne hd'.ne (by omega) (by omega)
  refine ⟨hI.pos, hI.lt16, hI.rsIdx, ?_, ?_, ?_, fun d hd hd' => ?_, fun d hd hd' => ?_, ?_⟩
  · dsimp only [ZcTx.put]
    rw [hI.use, next_mod hI.pos]
  · dsimp only [ZcTx.put]
    omega
  · dsimp only [ZcTx.put]
    omega
  · dsimp only [ZcTx.put] at hd hd' ⊢
    rw [hI.use]
    by_cases hnew : d = s.sent
    · simp only [hnew, update_self]
      rcases hxdp with rfl | rfl
      · rfl
      · rfl
    · rw [update_of_ne (hother d hd (by omega)), hI.xdpf d hd (by omega)]
      simp only [update_of_ne hnew]
  · dsimp only [ZcTx.put] at hd hd' ⊢
    rw [hI.use]
    by_cases hnew : d = s.sent
    · rw [hnew, update_self]
      simp only [Bool.false_eq_true, false_iff, not_and]
      omega
    · rw [update_of_ne (hother d hd (by omega)), update_of_ne (hother d hd (by omega))]
      exact hI.dd d hd (by omega)
  · refine hI.account.congr rfl rfl rfl le_rfl rfl rfl fun d hd => ?_
    exact update_of_ne (by omega) _ _

theorem ZcTx.Inv.setRsIdx (hI : s.Inv) {i : ℕ} (hi : i < s.count) : { s with nextRsIdx := i }.Inv :=
  { hI with rsIdx := hi, account := { hI.account with } }

theorem ZcTx.Inv.setActive (hI : s.Inv) (m : ℕ) : { s with xdpTxActive := m }.Inv :=
  { hI with account := { hI.account with } }

theorem ZcTx.Inv.setRs (hI : s.Inv) {p : ℕ} (hp : s.done ≤ p) (hp' : p < s.sent) :
    { s with rs := update s.rs (p % s.count) true }.Inv := by
  have hlt := hI.sent_lt
  refine { hI with dd := fun d hd hd' => ?_, account := { hI.account with } }
  dsimp only at hd hd' ⊢
  rw [hI.dd d hd hd']
  by_cases hdone : d < s.done
  · rw [update_of_ne (mod_ne (by omega) (by omega) (by omega))]
  · simp only [hdone, false_and]

structure ZcTx.Keeps (s s' : ZcTx) : Prop where
  count : s'.count = s.count
  nextToClean : s'.nextToClean = s.nextToClean
  cleaned : s'.cleaned = s.cleaned
  done : s'.done = s.done
  completed : s'.completed = s.completed
  returned : s'.returned = s.returned
  sent : s.sent ≤ s'.sent
  xdpAt : ∀ d < s.sent, s'.xdpAt d = s.xdpAt d

theorem ZcTx.Keeps.refl (s : ZcTx) : s.Keeps s :=
  ⟨rfl, rfl, rfl, rfl, rfl, rfl, le_rfl, fun _ _ => rfl⟩

theorem ZcTx.Keeps.put (s : ZcTx) (xdp : Option ℕ) (rs : Bool) : s.Keeps (s.put xdp rs) :=
  ⟨rfl, rfl, rfl, rfl, rfl, rfl, le_succ _, fun _ hd =>
    update_of_ne (Nat.ne_of_lt hd) _ _⟩

theorem ZcTx.Keeps.trans {s1 s2 : ZcTx} (h : s.Keeps s1) (h' : s1.Keeps s2) : s.Keeps s2 :=
  ⟨h'.count.trans h.count, h'.nextToClean.trans h.nextToClean, h'.cleaned.trans h.cleaned,
    h'.done.trans h.done, h'.completed.trans h.completed, h'.returned.trans h.returned,
    h.sent.trans h'.sent, fun d hd =>
      (h'.xdpAt d (Nat.lt_of_lt_of_le hd h.sent)).trans (h.xdpAt d hd)⟩

theorem xmitZcLoop_keeps (carrier : Bool) (budget avail : ℕ) (s : ZcTx) (txDesc : Option ℕ) :
    s.Keeps (xmitZcLoop carrier budget avail s txDesc).1 := by
  induction budget generalizing avail s txDesc with
  | zero => exact ZcTx.Keeps.refl s
  | succ budget ih =>
    unfold xmitZcLoop
    split
    · exact ZcTx.Keeps.refl s
    · cases avail with
      | zero => exact ZcTx.Keeps.refl s
      | succ avail =>
        have hput := ZcTx.Keeps.put s none false
        have hset : s.Keeps { s.put none false with nextRsIdx := s.nextToUse } := { hput with }
        exact hset.trans (ih avail _ _)

theorem xmitZc_keeps (carrier : Bool) (budget avail : ℕ) (s : ZcTx) :
    s.Keeps (xmitZc carrier budget avail s).2 := by
  have h := xmitZcLoop_keeps carrier budget avail s none
  unfold xmitZc
  dsimp only
  cases (xmitZcLoop carrier budget avail s none).2.1 with
  | none => exact h
  | some i => exact { h with }

theorem ZcTx.Inv.xmitLoop (hI : s.Inv) (carrier : Bool) (budget avail : ℕ) (txDesc : Option ℕ)
    (htx : ∀ i, txDesc = some i → ∃ p, s.done ≤ p ∧ p < s.sent ∧ i = p % s.count) :
    (xmitZcLoop carrier budget avail s txDesc).1.Inv ∧
      ∀ i, (xmitZcLoop carrier budget avail s txDesc).2.1 = some i →
        ∃ p, s.done ≤ p ∧ p < (xmitZcLoop carrier budget avail s txDesc).1.sent ∧
          i = p % s.count := by
  induction budget generalizing avail s txDesc with
  | zero => exact ⟨hI, htx⟩
  | succ budget ih =>
    unfold xmitZcLoop
    split
    · exact ⟨hI, htx⟩
    case isFalse hroom =>
      obtain ⟨hroom, -⟩ := not_or.mp hroom
      cases avail with
      | zero => exact ⟨hI, htx⟩
      | succ avail =>
        refine ih ((hI.put hroom false (Or.inl rfl)).setRsIdx hI.use_lt) avail _ fun i hi => ?_
        cases hi
        exact ⟨s.sent, hI.done_le, lt_succ_self _, hI.use⟩

theorem ZcTx.Inv.xmit (hI : s.Inv) (carrier : Bool) (budget avail : ℕ) :
    (xmitZc carrier budget avail s).2.Inv := by
  obtain ⟨hloop, hlast⟩ := hI.xmitLoop carrier budget avail none nofun
  have hkeep := xmitZcLoop_keeps carrier budget avail s none
  unfold xmitZc
  dsimp only
  cases htx : (xmitZcLoop carrier budget avail s none).2.1 with
  | none => exact hloop
  | some i =>
    obtain ⟨p, hp, hp', rfl⟩ := hlast i htx
    rw [← hkeep.count]
    exact hloop.setRs (by rwa [hkeep.done]) hp'

theorem ZcTx.Inv.xdp (hI : s.Inv) (mapped : Bool) : (xmitXdpRing mapped s).Inv := by
  unfold xmitXdpRing
  split
  · exact hI
  case isFalse hroom =>
    exact (hI.put (not_or.mp hroom).1 true (Or.inr rfl)).setActive _

theorem ZcTx.Inv.finish (hI : s.Inv) : (zcTxStep s .finish).Inv := by
  dsimp only [zcTxStep]
  split
  · exact hI
  · have hfin := hI.account.finished
    have hdone := hI.done_le
    have hlt := hI.sent_lt
    refine { hI with
      done_le := by dsimp only; omega
      dd := fun d hd hd' => ?_
      account := hI.account.congr rfl rfl rfl (le_succ _) rfl rfl fun _ _ => rfl }
    dsimp only at hd hd' ⊢
    by_cases hnew : d = s.done
    · rw [hnew]
      have hold := hI.dd s.done hfin (by omega)
      by_cases hrs : s.rs (s.done % s.count) = true
      · simp only [hrs, if_true, update_self, lt_succ_self, and_true]
      · rw [if_neg hrs, hold]
        exact and_congr_left fun h => absurd h hrs
    · have hne : d % s.count ≠ s.done % s.count := mod_ne hnew (by omega) (by omega)
      have hsame : (if s.rs (s.done % s.count) = true then
          update s.dd (s.done % s.count) true else s.dd) (d % s.count)
            = s.dd (d % s.count) := by
        by_cases hrs : s.rs (s.done % s.count) = true
        · rw [if_pos hrs, update_of_ne hne]
        · rw [if_neg hrs]
      rw [hsame, hI.dd d hd hd']
      exact and_congr_left fun _ => by omega

theorem cleanXdpDesc_xdp {i x : ℕ} (h : s.xdpf i = some x) (f : ℕ) :
    cleanXdpDesc i (s, f) =
      ({ s with
          xdpf := update s.xdpf i none
          xdpTxActive := dec16 s.xdpTxActive
          returned := x :: s.returned }, f) := by
  rw [cleanXdpDesc, h]

theorem cleanXdpDesc_zc {i : ℕ} (h : s.xdpf i = none) (f : ℕ) :
    cleanXdpDesc i (s, f) = ({ s with xdpf := update s.xdpf i none }, f + 1) := by
  rw [cleanXdpDesc, h]

theorem cleanXdpLoop_eq (xdpf : ℕ → Option ℕ) (m : ℕ) (rets : List ℕ) (k d f : ℕ)
    (hn : 0 < s.count) (hk : k ≤ s.count)
    (hx : ∀ e, d ≤ e → e < d + k → xdpf (e % s.count) = if s.xdpAt e then some e else none) :
    ∃ xdpf' m', cleanXdpLoop k (d % s.count)
        ({ s with xdpf := xdpf, xdpTxActive := m, returned := rets }, f) =
        ({ s with
            xdpf := xdpf'
            xdpTxActive := m'
            returned := ((range' d k).filter s.xdpAt).reverse ++ rets },
          f + (range' d k).countP fun e => !s.xdpAt e) ∧
      (∀ e, d + k ≤ e → e < d + s.count → xdpf' (e % s.count) = xdpf (e % s.count)) ∧
      ((range' d k).countP s.xdpAt ≤ m → m < 2 ^ 16 →
        m' = m - (range' d k).countP s.xdpAt) := by
  induction k generalizing xdpf m rets d f with
  | zero => exact ⟨xdpf, m, rfl, fun _ _ _ => rfl, fun _ _ => rfl⟩
  | succ k ih =>
    have hd := hx d le_rfl (by omega)
    -- either way the loop goes on from a ring that differs at this slot only
    have hother : ∀ e, d + 1 ≤ e → e < d + s.count →
        update xdpf (d % s.count) none (e % s.count) = xdpf (e % s.count) :=
      fun e he he' => update_of_ne (mod_ne (ne_of_gt he) he' (by omega)) _ _
    have hrest : ∀ e, d + 1 ≤ e → e < d + 1 + k →
        update xdpf (d % s.count) none (e % s.count) = if s.xdpAt e then some e else none :=
      fun e he he' => (hother e he (by omega)).trans (hx e (by omega) (by omega))
    rw [range'_succ, cleanXdpLoop]
    by_cases hxdp : s.xdpAt d = true
    · obtain ⟨xdpf', m', heq, hkeep, hactive⟩ :=
        ih _ (dec16 m) (d :: rets) (d + 1) f (by omega) hrest
      rw [if_pos hxdp] at hd
      rw [cleanXdpDesc_xdp hd, next_mod hn, filter_cons_of_pos hxdp, reverse_cons, append_assoc,
        countP_cons_of_pos hxdp, countP_cons_of_neg (by rw [hxdp]; decide)]
      refine ⟨xdpf', m', heq, fun e he he' => ?_, fun hle hlt => ?_⟩
      · rw [hkeep e (by omega) (by omega), hother e (by omega) he']
      · cases m with
        | zero => omega
        | succ j =>
          rw [dec16_succ] at hactive
          omega
    · obtain ⟨xdpf', m', heq, hkeep, hactive⟩ := ih _ m rets (d + 1) (f + 1) (by omega) hrest
      rw [if_neg hxdp] at hd
      rw [cleanXdpDesc_zc hd, next_mod hn, filter_cons_of_neg hxdp, countP_cons_of_neg hxdp,
        countP_cons_of_pos (by rw [Bool.eq_false_of_not_eq_true hxdp]; rfl)]
      rw [Nat.add_right_comm f 1] at heq
      refine ⟨xdpf', m', heq, fun e he he' => ?_, hactive⟩
      rw [hkeep e (by omega) (by omega), hother e (by omega) he']

theorem ZcTx.Inv.xdpf_segment (hI : s.Inv) {k : ℕ} (hk : s.cleaned + k ≤ s.sent) (e : ℕ)
    (he : s.cleaned ≤ e) (he' : e < s.cleaned + k) :
    s.xdpf (e % s.count) = if s.xdpAt e then some e else none :=
  hI.xdpf e he (he'.trans_le hk)

theorem ZcTx.Inv.retire (hI : s.Inv) {k : ℕ} (hk : s.cleaned + k ≤ s.sent)
    (hplain : s.xdpTxActive = 0 → ∀ j < k, s.xdpf (slot s.count s.nextToClean j) = none) :
    ∃ xdpf m, (if s.xdpTxActive = 0 then (s, k) else cleanXdpLoop k s.nextToClean (s, 0)) =
        ({ s with
            xdpf := xdpf
            xdpTxActive := m
            returned := ((range' s.cleaned k).filter s.xdpAt).reverse ++ s.returned },
          (range' s.cleaned k).countP fun e => !s.xdpAt e) ∧
      (∀ e, s.cleaned + k ≤ e → e < s.sent → xdpf (e % s.count) = s.xdpf (e % s.count)) ∧
      ((range' s.cleaned k).countP s.xdpAt ≤ s.xdpTxActive → s.xdpTxActive < 2 ^ 16 →
        m = s.xdpTxActive - (range' s.cleaned k).countP s.xdpAt) := by
  have hlt := hI.sent_lt
  split
  case isTrue hactive =>
    have hnone : ∀ e ∈ range' s.cleaned k, s.xdpAt e = false := by
      intro e he
      obtain ⟨he, he'⟩ := mem_range'_1.mp he
      have hxdpf := hI.xdpf_segment hk e he he'
      have hj := hplain hactive (e - s.cleaned) (by omega)
      rw [hI.slot_eq, Nat.add_sub_cancel' he, hxdpf] at hj
      by_contra hx
      rw [if_pos (Bool.eq_true_of_not_eq_false hx)] at hj
      cases hj
    have hfilter : (range' s.cleaned k).filter s.xdpAt = [] :=
      filter_eq_nil_iff.mpr fun e he => by rw [hnone e he]; exact Bool.false_ne_true
    have hcount : (range' s.cleaned k).countP (fun e => !s.xdpAt e) = k := by
      rw [countP_eq_length.mpr fun e he => by rw [hnone e he]; rfl, length_range']
    rw [hfilter, hcount, countP_eq_length_filter, hfilter]
    exact ⟨s.xdpf, s.xdpTxActive, rfl, fun _ _ _ => rfl, fun _ _ => rfl⟩
  · obtain ⟨xdpf, m, heq, hkeep, hcount⟩ :=
      cleanXdpLoop_eq _ s.xdpTxActive s.returned k s.cleaned 0 hI.pos (by omega)
        (hI.xdpf_segment hk)
    rw [← hI.account.index, Nat.zero_add] at heq
    exact ⟨xdpf, m, heq, fun e he he' => hkeep e he (by omega), hcount⟩

theorem range_add_range' (m k : ℕ) : range (m + k) = range m ++ range' m k := by
  rw [range_eq_range', range_eq_range', ← range'_append_1, Nat.zero_add]

theorem sum_completed (frames : ℕ) (l : List ℕ) :
    (if frames ≠ 0 then frames :: l else l).sum = frames + l.sum := by
  by_cases h : frames = 0
  · rw [if_neg (not_not.mpr h), h, Nat.zero_add]
  · rw [if_pos h, sum_cons]

theorem ZcTx.Accounted.completed_add (hA : s.Accounted) (k : ℕ) :
    (let frames := (range' s.cleaned k).countP fun e => !s.xdpAt e
      if frames ≠ 0 then frames :: s.completed else s.completed).sum =
      (range (s.cleaned + k)).countP fun e => !s.xdpAt e := by
  rw [sum_completed, hA.completed, range_add_range', countP_append, Nat.add_comm]

theorem ZcTx.Accounted.returned_add (hA : s.Accounted) (k : ℕ) :
    (((range' s.cleaned k).filter s.xdpAt).reverse ++ s.returned).Perm
      ((range (s.cleaned + k)).filter s.xdpAt) := by
  rw [range_add_range', filter_append]
  exact ((reverse_perm _).append hA.returned).trans perm_append_comm

theorem ZcTx.Inv.tornDown (hI : s.Inv) : s.TornDown := by
  have hlt := hI.sent_lt
  have hall : s.cleaned + (s.sent - s.cleaned) = s.sent := Nat.add_sub_cancel' hI.cleaned_le
  obtain ⟨xdpf, m, heq, -, -⟩ := cleanXdpLoop_eq _ s.xdpTxActive s.returned
    (s.sent - s.cleaned) s.cleaned 0 hI.pos (by omega)
    (hI.xdpf_segment hall.le)
  have hsum := hI.account.completed_add (s.sent - s.cleaned)
  have hperm := hI.account.returned_add (s.sent - s.cleaned)
  rw [hall] at hsum hperm
  rw [← hI.account.index, Nat.zero_add] at heq
  refine ⟨?_, ?_⟩
  · rw [xskCleanTxRing, hI.dist_use, heq]
    exact hsum
  · rw [xskCleanTxRing, hI.dist_use, heq]
    exact hperm

theorem ZcTx.Inv.framesReady_eq (hI : s.Inv) (hdd : s.dd s.nextRsIdx = true) :
    s.framesReady = dist s.count s.nextToClean s.nextRsIdx := by
  have hrs := hI.rsIdx
  rw [ZcTx.framesReady, if_pos hdd, Ring.dist]
  by_cases hle : s.nextToClean ≤ s.nextRsIdx
  · rw [if_pos hle, Nat.add_comm, Nat.add_sub_assoc hle, add_mod_left,
      mod_eq_of_lt (by omega)]
  · rw [if_neg hle, mod_eq_of_lt (by omega)]

theorem ZcTx.dd_of_framesReady (hready : s.framesReady ≠ 0) : s.dd s.nextRsIdx = true := by
  by_contra hdd
  exact hready (if_neg hdd)

theorem cleanXdpTx_of_not_ready (hready : s.framesReady = 0) : cleanXdpTx s = s := if_pos hready

theorem cleanXdpLoop_frame (k i : ℕ) (p : ZcTx × ℕ) :
    ∃ xdpf m rets, (cleanXdpLoop k i p).1 =
      { p.1 with xdpf := xdpf, xdpTxActive := m, returned := rets } := by
  induction k generalizing i p with
  | zero => exact ⟨p.1.xdpf, p.1.xdpTxActive, p.1.returned, rfl⟩
  | succ k ih =>
    obtain ⟨s, f⟩ := p
    cases h : s.xdpf i with
    | none =>
      rw [cleanXdpLoop, cleanXdpDesc_zc h]
      exact ih _ _
    | some x =>
      rw [cleanXdpLoop, cleanXdpDesc_xdp h]
      exact ih _ _

theorem cleanXdpTx_frame (s : ZcTx) : (cleanXdpTx s).count = s.count ∧
    (cleanXdpTx s).done = s.done ∧ (cleanXdpTx s).sent = s.sent ∧ (cleanXdpTx s).xdpAt = s.xdpAt ∧
    (cleanXdpTx s).cleaned = s.cleaned + s.framesReady := by
  by_cases hready : s.framesReady = 0
  · rw [cleanXdpTx_of_not_ready hready, hready]
    exact ⟨rfl, rfl, rfl, rfl, rfl⟩
  · unfold cleanXdpTx
    dsimp only
    rw [if_neg hready]
    split
    · exact ⟨rfl, rfl, rfl, rfl, rfl⟩
    · obtain ⟨xdpf, m, rets, heq⟩ := cleanXdpLoop_frame s.framesReady s.nextToClean (s, 0)
      rw [heq]
      exact ⟨rfl, rfl, rfl, rfl, rfl⟩

theorem cleanXdpTx_nextToClean (hready : s.framesReady ≠ 0) :
    (cleanXdpTx s).nextToClean =
      let ntc := (s.nextToClean + s.framesReady) % 2 ^ 16
      if s.count ≤ ntc then ntc - s.count else ntc := by
  unfold cleanXdpTx
  rw [if_neg hready]

theorem ZcTx.Inv.clean_nextToClean (hI : s.Inv) (hok : s.dd s.nextRsIdx = true → s.Retires) :
    (cleanXdpTx s).nextToClean = if s.dd s.nextRsIdx then s.nextRsIdx else s.nextToClean := by
  by_cases hready : s.framesReady = 0
  · rw [cleanXdpTx_of_not_ready hready]
    by_cases hdd : s.dd s.nextRsIdx = true
    · rw [if_pos hdd, ← slot_dist hI.clean_lt hI.rsIdx, ← hI.framesReady_eq hdd, hready,
        slot_zero hI.clean_lt]
    · rw [if_neg hdd]
  · have hdd := ZcTx.dd_of_framesReady hready
    have hlt := (hok hdd).lt
    rw [← hI.framesReady_eq hdd] at hlt
    rw [cleanXdpTx_nextToClean hready, if_pos hdd]
    rw [mod_eq_of_lt hlt, hI.framesReady_eq hdd, add_wrap hI.clean_lt (dist_lt hI.pos _ _),
      slot_dist hI.clean_lt hI.rsIdx]

theorem ZcTx.Inv.clean (hI : s.Inv) (hok : s.dd s.nextRsIdx = true → s.Retires) :
    (cleanXdpTx s).Inv := by
  by_cases hready : s.framesReady = 0
  · rw [cleanXdpTx_of_not_ready hready]
    exact hI
  · have hdd := ZcTx.dd_of_framesReady hready
    have hntc := hI.clean_nextToClean hok
    rw [if_pos hdd] at hntc
    obtain ⟨hfin, -, hplain⟩ := hok hdd
    rw [← hI.framesReady_eq hdd] at hfin hplain
    have hdone := hI.done_le
    have hlt := hI.sent_lt
    obtain ⟨xdpf, m, heq, hkeep, -⟩ := hI.retire (hfin.trans hdone) hplain
    have hindex : s.nextRsIdx = (s.cleaned + s.framesReady) % s.count := by
      rw [← hI.slot_eq, hI.framesReady_eq hdd, slot_dist hI.clean_lt hI.rsIdx]
    have hsum := hI.account.completed_add s.framesReady
    have hperm := hI.account.returned_add s.framesReady
    rw [hindex] at hntc
    unfold cleanXdpTx at hntc ⊢
    rw [if_neg hready] at hntc ⊢
    rw [heq] at hntc ⊢
    exact ⟨hI.pos, hI.lt16, hI.rsIdx, hI.use, hdone, by dsimp only; omega,
      fun d hd hd' => (hkeep d hd hd').trans (hI.xdpf d (by dsimp only at hd; omega) hd'),
      fun d hd hd' => hI.dd d (by dsimp only at hd; omega) hd', ⟨hntc, hfin, hsum, hperm⟩⟩

theorem ZcTx.Inv.step {e : ZcTxEvent} (hI : s.Inv) (hok : s.CleansAll e) : (zcTxStep s e).Inv := by
  cases e with
  | clean carrier budget avail => exact (hI.clean hok.1).xmit carrier budget avail
  | xdp mapped => exact hI.xdp mapped
  | finish => exact hI.finish

theorem zcTxStep_clean_keeps (s : ZcTx) (carrier : Bool) (budget avail : ℕ) :
    (cleanXdpTx s).Keeps (zcTxStep s (.clean carrier budget avail)) :=
  xmitZc_keeps carrier budget avail (cleanXdpTx s)

theorem ZcTx.Inv.retires_of_accounted (hI : s.Inv) {s' : ZcTx} (hkeep : (cleanXdpTx s).Keeps s')
    (hA : s'.Accounted) (hdd : s.dd s.nextRsIdx = true) : s.Retires := by
  obtain ⟨hcount, hdone, hsent, hxdpAt, hcleaned⟩ := cleanXdpTx_frame s
  have hfin : s.cleaned + s.framesReady ≤ s.done := by
    have h := hA.finished
    rwa [hkeep.cleaned, hkeep.done, hcleaned, hdone] at h
  have hdoneLe := hI.done_le
  have hclean := hI.clean_lt
  have hlt16 := hI.lt16
  have hdist := dist_lt hI.pos s.nextToClean s.nextRsIdx
  rw [← hI.framesReady_eq hdd] at hdist
  by_cases hready : s.framesReady = 0
  · rw [hI.framesReady_eq hdd] at hready
    refine ⟨?_, ?_, ?_⟩
    · rw [hready]
      exact hI.account.finished
    · rw [hready]
      exact hclean.trans hlt16
    · rw [hready]
      exact fun _ k hk => absurd hk (Nat.not_lt_zero k)
  · refine ⟨?_, ?_, fun hactive => ?_⟩
    · rwa [← hI.framesReady_eq hdd]
    · rw [← hI.framesReady_eq hdd]
      by_contra hover
      have hindex := hA.index
      rw [hkeep.nextToClean, hkeep.cleaned, hkeep.count, hcleaned, hcount, ← hI.slot_eq,
        ← add_wrap hclean hdist, if_pos (by omega), cleanXdpTx_nextToClean hready] at hindex
      -- the sum has wrapped around, not the index
      rw [mod_eq_sub_mod (by omega), mod_eq_of_lt (by omega), if_neg (by omega)] at hindex
      omega
    · rw [← hI.framesReady_eq hdd]
      have hsum := hA.completed
      have hxdp : (range s'.cleaned).countP (fun d => !s'.xdpAt d) =
          (range (s.cleaned + s.framesReady)).countP fun d => !s.xdpAt d := by
        rw [hkeep.cleaned, hcleaned]
        refine countP_congr fun d hd => ?_
        rw [hkeep.xdpAt d (by rw [hsent]; exact (mem_range.mp hd).trans_le (by omega)), hxdpAt]
      have hcompleted : (cleanXdpTx s).completed.sum = s.framesReady + s.completed.sum := by
        unfold cleanXdpTx
        rw [if_neg hready, if_pos hactive]
        exact sum_completed _ _
      rw [hkeep.completed, hcompleted, hxdp, range_add_range', countP_append,
        hI.account.completed, Nat.add_comm, Nat.add_left_cancel_iff] at hsum
      have hall : (range' s.cleaned s.framesReady).countP (fun d => !s.xdpAt d) =
          (range' s.cleaned s.framesReady).length := by
        rw [← hsum, length_range']
      intro k hk
      have hplain := countP_eq_length.mp hall (s.cleaned + k)
        (mem_range'_1.mpr ⟨by omega, by omega⟩)
      rw [hI.slot_eq, hI.xdpf _ (by omega) (by omega)]
      rw [Bool.not_eq_true'] at hplain
      rw [hplain]
      rfl

theorem ZcTx.Inv.clean_iff (hI : s.Inv) (carrier : Bool) (budget avail : ℕ) :
    ((zcTxStep s (.clean carrier budget avail)).Accounted ∧
          (zcTxStep s (.clean carrier budget avail)).TornDown) ∧
        s.Reaches (.clean carrier budget avail) ↔ s.CleansAll (.clean carrier budget avail) := by
  have hkeep := zcTxStep_clean_keeps s carrier budget avail
  constructor
  · rintro ⟨⟨hA, -⟩, hreach⟩
    have hok := hI.retires_of_accounted hkeep hA
    refine ⟨hok, fun hall => ?_⟩
    have hend : (zcTxStep s (.clean carrier budget avail)).nextToClean = s.nextToUse := hreach hall
    rw [hkeep.nextToClean, hI.clean_nextToClean hok] at hend
    by_cases hdd : s.dd s.nextRsIdx = true
    · rw [if_pos hdd] at hend
      exact Or.inr ⟨hdd, hend⟩
    · rw [if_neg hdd] at hend
      exact Or.inl hend
  · intro hok
    refine ⟨⟨(hI.step hok).account, (hI.step hok).tornDown⟩, fun hall => ?_⟩
    rw [hkeep.nextToClean, hI.clean_nextToClean hok.1]
    split
    case isTrue hdd =>
      rcases hok.2 hall with hempty | ⟨-, hrs⟩
      · -- nothing is outstanding, so nothing can have been retired
        have hfin := (hok.1 hdd).finished
        have hdone := hI.done_le
        have hnone : dist s.count s.nextToClean s.nextToUse = 0 := by
          rw [← hempty, Ring.dist_self]
        rw [hI.dist_use] at hnone
        have hzero : dist s.count s.nextToClean s.nextRsIdx = 0 := by omega
        rw [← slot_dist hI.clean_lt hI.rsIdx, hzero, slot_zero hI.clean_lt, hempty]
      · exact hrs
    case isFalse hdd =>
      rcases hok.2 hall with hempty | ⟨hset, -⟩
      · exact hempty
      · exact absurd hset hdd

theorem ZcTx.Configured.inv (h : s.Configured) : s.Inv := by
  have htwo := h.two_le
  refine ⟨by omega, h.lt, h.nextRsIdx, ?_, ?_, ?_, fun d _ hd => ?_, fun d _ hd => ?_, ?_⟩
  · rw [h.nextToUse, h.sent, zero_mod]
  · rw [h.sent, h.done]
  · rw [h.sent, h.cleaned]
    omega
  · rw [h.sent] at hd
    exact absurd hd (Nat.not_lt_zero d)
  · rw [h.sent] at hd
    exact absurd hd (Nat.not_lt_zero d)
  · refine ⟨?_, ?_, ?_, ?_⟩
    · rw [h.nextToClean, h.cleaned, zero_mod]
    · rw [h.cleaned]
      exact Nat.zero_le _
    · rw [h.completed, h.cleaned]
      rfl
    · rw [h.returned, h.cleaned]
      rfl

end

/-- **Zero-copy transmit retires every descriptor once and leaves nothing behind if and only if
every clean of the run meets its condition**, whatever the ring held before. -/
theorem zcTx_retired_iff (s : ZcTx) (h : s.Configured) (es : List ZcTxEvent) :
    (After zcTxStep (fun s => s.Accounted ∧ s.TornDown) s es ∧ Along zcTxStep ZcTx.Reaches s es) ↔
      Along zcTxStep ZcTx.CleansAll s es := by
  rw [after_iff_along_step, ← along_and]
  refine along_iff_along (fun _ _ => True) (fun s e hI _ hok => ZcTx.Inv.step hI hok)
    (fun s e hI _ => ?_) h.inv (along_of_forall s es fun _ _ => trivial)
  cases e with
  | clean carrier budget avail => exact hI.clean_iff carrier budget avail
  | xdp mapped =>
    have hI' := hI.xdp mapped
    exact ⟨fun _ => trivial, fun _ => ⟨⟨hI'.account, hI'.tornDown⟩, trivial⟩⟩
  | finish =>
    exact ⟨fun _ => trivial, fun _ => ⟨⟨hI.finish.account, hI.finish.tornDown⟩, trivial⟩⟩

/-- `next_rs_idx`, `xdp_tx_active` and the descriptors were left as given. -/
def configuredZcTx (nextRsIdx xdpTxActive : ℕ) (dd : ℕ → Bool) : ZcTx where
  count := 64
  nextToClean := 0
  nextToUse := 0
  nextRsIdx := nextRsIdx
  xdpTxActive := xdpTxActive
  xdpf := fun _ => none
  rs := fun _ => false
  dd := dd
  sent := 0
  done := 0
  cleaned := 0
  xdpAt := fun _ => false
  completed := []
  returned := []

theorem configuredZcTx_configured {i : ℕ} (hi : i < 64) (m : ℕ) (dd : ℕ → Bool) :
    (configuredZcTx i m dd).Configured :=
  ⟨(by decide : 2 ≤ 64), (by decide : 64 < 2 ^ 16), hi, rfl, rfl, rfl, rfl, rfl, rfl, rfl⟩

theorem zcTx_retired_two :
    (configuredZcTx 20 0 fun _ => false).Configured ∧
      let es := [.clean true 2 2, .finish, .finish, .xdp true, .clean true 0 0]
      After zcTxStep (fun s => s.Accounted ∧ s.TornDown) (configuredZcTx 20 0 fun _ => false) es ∧
        Along zcTxStep ZcTx.Reaches (configuredZcTx 20 0 fun _ => false) es := by
  have hconf := configuredZcTx_configured (by decide : 20 < 64) 0 fun _ => false
  refine ⟨hconf, (zcTx_retired_iff _ hconf _).mpr ?_⟩
  refine ⟨⟨nofun, fun _ => Or.inl rfl⟩, trivial, trivial, trivial, ⟨fun _ => ?_, fun hall => ?_⟩,
    trivial⟩
  · exact ⟨by decide, by decide, by decide⟩
  · exact absurd (hall 2 (by decide) (by decide)) (by decide)

/-- The last frame is left behind; and with `DD` left over on descriptor 20 the first clean
completes 20 frames never sent. -/
theorem zcTx_left_behind :
    (configuredZcTx 0 0 fun _ => false).Configured ∧
      ¬ Along zcTxStep ZcTx.Reaches (configuredZcTx 0 0 fun _ => false)
        [.clean true 1 1, .finish, .clean true 0 0] ∧
      (configuredZcTx 20 0 fun i => i = 20).Configured ∧
      ¬ After zcTxStep ZcTx.Accounted (configuredZcTx 20 0 fun i => i = 20) [.clean true 0 0] ∧
      (zcTxStep (configuredZcTx 20 0 fun i => i = 20) (.clean true 0 0)).completed = [20] := by
  refine ⟨configuredZcTx_configured (by decide) _ _, fun h => ?_,
    configuredZcTx_configured (by decide) _ _, fun h => ?_, by decide⟩
  · have hreach := h.2.2.1 (by decide)
    exact absurd hreach (by decide)
  · exact absurd h.1.finished (by decide)

end Ixgbe
