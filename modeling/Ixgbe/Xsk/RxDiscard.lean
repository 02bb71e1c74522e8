import Ixgbe.Xsk.Rx

/-! # Exactly the long frames are dropped

A frame of one descriptor is lost exactly to a stale mark, left by a middle descriptor of an earlier
lap (`markAt`). -/

namespace Ixgbe

open EventRun Ring Function List Nat

/-- Exactly the frames of one descriptor went to the XDP program, and every buffer is in one slot or
has been freed or handed on once. -/
structure ZcRing.Exact (r : ZcRing) : Prop where
  single : ∀ d < r.cleaned, Single r.eopAt d → d ∈ r.ran ∧ d ∉ r.dropped
  long : ∀ d, ¬ Single r.eopAt d → d ∉ r.ran
  buffers : ∀ b < r.taken,
    (r.gone.count b = 1 ∧ ∀ i < r.count, r.xdp i ≠ some b) ∨
      (r.gone.count b = 0 ∧ ∃! i, i < r.count ∧ r.xdp i = some b)

/-- A frame of one descriptor meets no stale mark, and is not converted for a full Tx ring if the
conversion returns the buffer. -/
def CleansWell (returns : Bool) (r : ZcRing) : ZcEvent → Prop
  | .clean v => r.len r.nextToClean ≠ 0 → Single r.eopAt r.cleaned →
      ¬ LeftMarked r.eopAt r.count r.cleaned ∧ (v = .txFull → returns = false)
  | _ => True

/-- Cleaned up to `cleaned`, written back up to `written`, and with buffers up to `taken`. -/
structure ZcRing.Inv (r : ZcRing) : Prop where
  lt16 : r.count < 2 ^ 16
  pos : 0 < r.count
  clean : r.nextToClean = r.cleaned % r.count
  use : r.nextToUse = r.taken % r.count
  head : r.head = r.written % r.count
  cleaned_le : r.cleaned ≤ r.written
  written_le : r.written ≤ r.taken
  taken_lt : r.taken < r.cleaned + r.count
  xdp : ∀ d, r.cleaned ≤ d → d < r.taken → r.xdp (d % r.count) = some d
  xdp_none : ∀ d, r.taken ≤ d → d < r.cleaned + r.count → r.xdp (d % r.count) = none
  len : ∀ d, r.written ≤ d → d ≤ r.taken → r.len (d % r.count) = 0
  eop : ∀ d, r.cleaned ≤ d → d < r.written → r.eop (d % r.count) = r.eopAt d
  discard : ∀ i < r.count, r.discard i = markAt r.eopAt r.count r.cleaned i
  room : r.cleanedCount ≤ r.cleaned + r.count - 1 - r.taken

section

variable {r : ZcRing}

theorem ZcRing.Inv.of_xdp (hI : r.Inv) {i b : ℕ} (hi : i < r.count) (h : r.xdp i = some b) :
    r.cleaned ≤ b ∧ i = b % r.count := by
  obtain ⟨d, hd, hd', rfl⟩ := exists_mod_eq hi r.cleaned
  by_cases ht : d < r.taken
  · rw [hI.xdp d hd ht] at h
    cases h
    exact ⟨hd, rfl⟩
  · rw [hI.xdp_none d (by omega) hd'] at h
    cases h

/-- `k` more buffers are on the ring. -/
structure FillingZc (r₀ : ZcRing) (k : ℕ) (s : Bool × ZcRing) : Prop where
  frame : s.2 = { r₀ with xdp := s.2.xdp, taken := r₀.taken + k, len := s.2.len }
  xdp : ∀ d, r₀.cleaned ≤ d → d < r₀.taken + k → s.2.xdp (d % r₀.count) = some d
  xdp_none : ∀ d, r₀.taken + k ≤ d → d < r₀.cleaned + r₀.count →
    s.2.xdp (d % r₀.count) = none
  len : ∀ d, r₀.written ≤ d → d ≤ r₀.taken + k → s.2.len (d % r₀.count) = 0

theorem FillingZc.step {alloc : ℕ → Bool} {k : ℕ} {s : Bool × ZcRing} (hf : FillingZc r k s)
    (hI : r.Inv) (hlt : r.taken + k + 1 < r.cleaned + r.count)
    (hok : (allocBufferZc alloc s ((r.taken + k) % r.count)).1 = true) :
    FillingZc r (k + 1) (clearLengthZc (allocBufferZc alloc s ((r.taken + k) % r.count)).2
      ((r.taken + (k + 1)) % r.count)) := by
  have hcw := hI.cleaned_le
  have hwt := hI.written_le
  have htaken : s.2.taken = r.taken + k := congrArg ZcRing.taken hf.frame
  unfold allocBufferZc at hok ⊢
  by_cases ha : alloc ((r.taken + k) % r.count) = true
  · dsimp only
    rw [if_pos ha]
    refine ⟨?_, fun d hd hd' => ?_, fun d hd hd' => ?_, fun d hd hd' => ?_⟩
    · rw [hf.frame]
      rfl
    · dsimp only [clearLengthZc]
      rw [htaken]
      by_cases hlast : d = r.taken + k
      · rw [hlast, update_self]
      · rw [update_of_ne (mod_ne hlast (by omega) (by omega))]
        exact hf.xdp d hd (by omega)
    · dsimp only [clearLengthZc]
      rw [update_of_ne (mod_ne (by omega) (by omega) (by omega))]
      exact hf.xdp_none d (by omega) hd'
    · dsimp only [clearLengthZc]
      by_cases hlast : d = r.taken + (k + 1)
      · rw [hlast, update_self]
      · rw [update_of_ne (mod_ne hlast (by omega) (by omega))]
        exact hf.len d hd (by omega)
  · dsimp only at hok
    rw [if_neg ha] at hok
    cases hok

theorem FillingZc.stop {alloc : ℕ → Bool} {k : ℕ} {s : Bool × ZcRing} (hf : FillingZc r k s)
    (hlt : r.taken + k < r.cleaned + r.count)
    (hno : (allocBufferZc alloc s ((r.taken + k) % r.count)).1 = false) :
    FillingZc r k (allocBufferZc alloc s ((r.taken + k) % r.count)).2 := by
  have hsame : update s.2.xdp ((r.taken + k) % r.count) none = s.2.xdp := by
    rw [← hf.xdp_none (r.taken + k) le_rfl hlt, update_eq_self]
  unfold allocBufferZc at hno ⊢
  by_cases ha : alloc ((r.taken + k) % r.count) = true
  · dsimp only at hno
    rw [if_pos ha] at hno
    cases hno
  · dsimp only
    rw [if_neg ha, hsame]
    exact { hf with }

theorem ZcRing.Inv.refill (hI : r.Inv) (alloc : ℕ → Bool) {c : ℕ}
    (hc : c ≤ r.cleaned + r.count - 1 - r.taken) :
    ∃ xdp len j, (allocRxBuffersZc alloc r c).2 =
        { r with xdp := xdp, len := len, taken := r.taken + j,
                 nextToUse := (r.taken + j) % r.count } ∧
      FillingZc r j (true, { r with xdp := xdp, len := len, taken := r.taken + j }) ∧ j ≤ c := by
  have hself : FillingZc r 0 (true, r) := ⟨rfl, hI.xdp, hI.xdp_none, hI.len⟩
  by_cases hc0 : c = 0
  · refine ⟨r.xdp, r.len, 0, ?_, hself, zero_le _⟩
    rw [allocRxBuffersZc, if_pos hc0, add_zero, ← hI.use]
  have hslot : ∀ k, slot r.count r.nextToUse k = (r.taken + k) % r.count := by
    intro k
    rw [hI.use, slot_mod]
  obtain ⟨j, hj, hf, hi⟩ := walk_rule (allocBufferZc alloc) clearLengthZc
    (n := r.count) (w := 16) (b := r.nextToUse) (c := c) (P := FillingZc r) (R := FillingZc r)
    hI.lt16 (hI.use ▸ Nat.mod_lt _ hI.pos)
    (fun k s hk hf hok => by
      rw [hslot] at hok
      rw [hslot, hslot]
      exact hf.step hI (by omega) hok)
    (fun k s hk hf hno => by
      rw [hslot] at hno ⊢
      exact hf.stop (by omega) hno)
    (fun s hf => hf) hself
  rw [allocRxBuffersZc, if_neg hc0]
  dsimp only
  rw [← biased, hi, hslot]
  generalize (walk r.count (allocBufferZc alloc) clearLengthZc c (true, r) r.nextToUse
    (biased 16 r.count r.nextToUse)).1 = s at hf
  refine ⟨s.2.xdp, s.2.len, j, ?_, ⟨rfl, hf.xdp, hf.xdp_none, hf.len⟩, hj⟩
  split
  · rw [hf.frame]
  case isFalse hmoved =>
    rw [← not_not.mp hmoved]
    nth_rewrite 1 [hf.frame]
    rw [congrArg ZcRing.nextToUse hf.frame]

theorem FillingZc.inv {j : ℕ} {xdp : ℕ → Option ℕ} {len : ℕ → ℕ} {ok : Bool} (hI : r.Inv)
    (hf : FillingZc r j (ok, { r with xdp := xdp, len := len, taken := r.taken + j }))
    (hj : j ≤ r.cleaned + r.count - 1 - r.taken) (failure : Bool) :
    ZcRing.Inv { r with
      xdp := xdp, len := len, taken := r.taken + j, nextToUse := (r.taken + j) % r.count
      cleanedCount := 0, failure := failure } := by
  have hwt := hI.written_le
  have hlt := hI.taken_lt
  refine ⟨hI.lt16, hI.pos, hI.clean, rfl, hI.head, hI.cleaned_le, ?_, ?_, hf.xdp, hf.xdp_none,
    hf.len, hI.eop, hI.discard, zero_le _⟩
  · dsimp only
    omega
  · dsimp only
    omega

theorem ZcRing.Inv.waiting (hI : r.Inv) (hlen : r.len r.nextToClean ≠ 0) :
    r.cleaned < r.written := by
  by_contra hle
  have hcw := hI.cleaned_le
  have hwt := hI.written_le
  refine hlen ?_
  rw [hI.clean]
  exact hI.len r.cleaned (by omega) (by omega)

theorem ZcRing.Inv.advance (hI : r.Inv) (hw : r.cleaned < r.written) {discard : ℕ → Bool}
    {cleanedCount : ℕ} {ran dropped gone : List ℕ}
    (hmark : ∀ i < r.count, discard i = markAt r.eopAt r.count (r.cleaned + 1) i)
    (hcount : cleanedCount ≤ r.cleanedCount + 1) :
    ZcRing.Inv { r with
      nextToClean := next r.count r.nextToClean, cleaned := r.cleaned + 1
      xdp := update r.xdp r.nextToClean none, discard := discard
      cleanedCount := cleanedCount, ran := ran, dropped := dropped, gone := gone } := by
  have hwt := hI.written_le
  have hlt := hI.taken_lt
  have hroom := hI.room
  refine ⟨hI.lt16, hI.pos, ?_, hI.use, hI.head, hw, hwt, ?_, fun d hd hd' => ?_,
    fun d hd hd' => ?_, hI.len, fun d hd hd' => ?_, hmark, ?_⟩
  · dsimp only
    rw [hI.clean, next_mod hI.pos]
  · dsimp only
    omega
  · dsimp only at hd hd' ⊢
    rw [hI.clean, update_of_ne (mod_ne (by omega) (by omega) (by omega))]
    exact hI.xdp d (by omega) hd'
  · dsimp only at hd hd' ⊢
    rw [hI.clean]
    by_cases hlast : d = r.cleaned + r.count
    · -- a lap later is the slot just left
      rw [hlast, add_mod_right, update_self]
    · rw [update_of_ne (mod_ne (by omega) (by omega) (by omega))]
      exact hI.xdp_none d hd (by omega)
  · dsimp only at hd hd' ⊢
    exact hI.eop d (by omega) hd'
  · dsimp only
    omega

structure ZcRing.Log (r : ZcRing) : Prop where
  ran : ∀ d ∈ r.ran, d < r.written ∧ Single r.eopAt d
  single : ∀ d < r.cleaned, Single r.eopAt d → d ∈ r.ran
  dropped : ∀ d ∈ r.dropped, d < r.written ∧ ¬ Single r.eopAt d
  gone : ∀ d, r.gone.count d = if d < r.cleaned then 1 else 0

theorem ZcRing.Inv.exact (hI : r.Inv) (hL : r.Log) : r.Exact := by
  refine ⟨fun d hd hs => ⟨hL.single d hd hs, fun hdrop => (hL.dropped d hdrop).2 hs⟩,
    fun d hs hran => hs (hL.ran d hran).2, fun b hb => ?_⟩
  by_cases hlt : b < r.cleaned
  · refine .inl ⟨(hL.gone b).trans (if_pos hlt), fun i hi hxdp => ?_⟩
    have := (hI.of_xdp hi hxdp).1
    omega
  · refine .inr ⟨(hL.gone b).trans (if_neg hlt), b % r.count,
      ⟨Nat.mod_lt _ hI.pos, hI.xdp b (by omega) hb⟩, ?_⟩
    rintro i ⟨hi, hxdp⟩
    exact (hI.of_xdp hi hxdp).2

theorem Single.congr {eop eop' : ℕ → Bool} {w d : ℕ} (h : ∀ e < w, eop' e = eop e) (hd : d < w) :
    Single eop' d ↔ Single eop d := by
  rw [Single, Single, h d hd, h (d - 1) (by omega)]

theorem ZcRing.Log.advance {r' : ZcRing} (hL : r.Log) (hw : r.cleaned < r.written)
    (heop : r'.eopAt = r.eopAt) (hwritten : r'.written = r.written)
    (hcleaned : r'.cleaned = r.cleaned + 1) (hgone : r'.gone = r.cleaned :: r.gone)
    (hran : ∀ d, d ∈ r'.ran ↔ d ∈ r.ran ∨ d = r.cleaned ∧ Single r.eopAt r.cleaned)
    (hdropped : ∀ d ∈ r'.dropped, d ∈ r.dropped ∨ d = r.cleaned ∧ ¬ Single r.eopAt r.cleaned) :
    r'.Log := by
  refine ⟨fun d hd => ?_, fun d hd hs => ?_, fun d hd => ?_, fun d => ?_⟩
  · rw [hwritten, heop]
    rcases (hran d).mp hd with hold | ⟨rfl, hs⟩
    · exact hL.ran d hold
    · exact ⟨hw, hs⟩
  · rw [hcleaned] at hd
    rw [heop] at hs
    rcases Nat.lt_succ_iff_lt_or_eq.mp hd with hlt | rfl
    · exact (hran d).mpr (.inl (hL.single d hlt hs))
    · exact (hran _).mpr (.inr ⟨rfl, hs⟩)
  · rw [hwritten, heop]
    rcases hdropped d hd with hold | ⟨rfl, hs⟩
    · exact hL.dropped d hold
    · exact ⟨hw, hs⟩
  · rw [hgone, hcleaned, count_cons, hL.gone d]
    by_cases hd : d = r.cleaned
    · subst hd
      simp
    · have hne : r.cleaned ≠ d := fun hc => hd hc.symm
      by_cases hlt : d < r.cleaned
      · simp [hlt, hne, lt_succ_of_lt hlt]
      · have hnot : ¬ d < r.cleaned + 1 := by omega
        simp [hlt, hne, hnot]

/-- With the mark, the counter and the record as given. -/
def ZcRing.behind (r : ZcRing) (discard : ℕ → Bool) (cleanedCount : ℕ) (ran dropped gone : List ℕ) :
    ZcRing :=
  { r with
    nextToClean := next r.count r.nextToClean, cleaned := r.cleaned + 1
    xdp := Function.update r.xdp r.nextToClean none, discard := discard
    cleanedCount := cleanedCount, ran := ran, dropped := dropped, gone := gone }

variable {returns : Bool} {v : ZcVerdict}

theorem cleanZc_long (hlen : r.len r.nextToClean ≠ 0) (heop : r.eop r.nextToClean = false) :
    cleanZc returns r v =
      r.behind (update r.discard (next r.count r.nextToClean) true) r.cleanedCount r.ran
        r.dropped ((r.xdp r.nextToClean).toList ++ r.gone) := by
  unfold cleanZc
  rw [if_neg hlen, if_pos heop]
  rfl

theorem cleanZc_marked (hlen : r.len r.nextToClean ≠ 0)
    (heop : r.eop r.nextToClean = true) (hmark : r.discard r.nextToClean = true) :
    cleanZc returns r v =
      r.behind (update r.discard r.nextToClean false) r.cleanedCount r.ran
        (r.cleaned :: r.dropped) ((r.xdp r.nextToClean).toList ++ r.gone) := by
  unfold cleanZc
  rw [if_neg hlen, if_neg (by rw [heop]; decide), if_pos hmark]
  rfl

theorem cleanZc_ran (returns : Bool) (hlen : r.len r.nextToClean ≠ 0)
    (heop : r.eop r.nextToClean = true) (hmark : r.discard r.nextToClean = false) :
    (v = .pass false ∧ cleanZc returns r v = { r with ran := r.cleaned :: r.ran }) ∨
      (v ≠ .pass false ∧ cleanZc returns r v =
        r.behind r.discard (r.cleanedCount + 1) (r.cleaned :: r.ran) r.dropped
          ((if v = .txFull ∧ returns = true then (r.xdp r.nextToClean).toList else []) ++
            ((r.xdp r.nextToClean).toList ++ r.gone))) := by
  unfold cleanZc
  rw [if_neg hlen, if_neg (by rw [heop]; decide), if_neg (by rw [hmark]; decide)]
  cases v with
  | pass skb =>
    cases skb with
    | false => exact .inl ⟨rfl, rfl⟩
    | true => exact .inr ⟨by decide, rfl⟩
  | consumed => exact .inr ⟨by decide, rfl⟩
  | tx => exact .inr ⟨by decide, rfl⟩
  | redirect => exact .inr ⟨by decide, rfl⟩
  | txFull =>
    refine .inr ⟨by decide, ?_⟩
    cases returns with
    | false => rfl
    | true => rfl

section

variable (hI : r.Inv)

include hI

theorem ZcRing.Inv.here (hw : r.cleaned < r.written) :
    r.xdp r.nextToClean = some r.cleaned ∧ r.eop r.nextToClean = r.eopAt r.cleaned ∧
      r.discard r.nextToClean = markAt r.eopAt r.count r.cleaned (r.cleaned % r.count) := by
  have hwt := hI.written_le
  rw [hI.clean]
  exact ⟨hI.xdp _ le_rfl (by omega), hI.eop _ le_rfl hw,
    hI.discard _ (Nat.mod_lt _ hI.pos)⟩

theorem ZcRing.Inv.mark_long (heop : r.eopAt r.cleaned = false) :
    ∀ i < r.count, update r.discard (next r.count r.nextToClean) true i =
      markAt r.eopAt r.count (r.cleaned + 1) i := by
  intro i hi
  rw [hI.clean, next_mod hI.pos, markAt, if_neg (by rw [heop]; decide)]
  split
  case isTrue hnext =>
    rw [hnext, update_self]
  case isFalse hnext =>
    rw [update_of_ne hnext, hI.discard i hi]

theorem ZcRing.Inv.mark_last (heop : r.eopAt r.cleaned = true) :
    ∀ i < r.count, update r.discard r.nextToClean false i =
      markAt r.eopAt r.count (r.cleaned + 1) i := by
  intro i hi
  rw [hI.clean, markAt, if_pos heop]
  split
  case isTrue hhere =>
    rw [hhere, update_self]
  case isFalse hhere =>
    rw [update_of_ne hhere, hI.discard i hi]

end

theorem ZcRing.Inv.clean_desc (hI : r.Inv) (hL : r.Log) (hok : CleansWell returns r (.clean v)) :
    (cleanZc returns r v).Inv ∧ (cleanZc returns r v).Log := by
  by_cases hlen : r.len r.nextToClean = 0
  · have hsame : cleanZc returns r v = r := by
      unfold cleanZc
      rw [if_pos hlen]
    rw [hsame]
    exact ⟨hI, hL⟩
  have hw := hI.waiting hlen
  obtain ⟨hxdp, heop, hmark⟩ := hI.here hw
  have hgone : (r.xdp r.nextToClean).toList ++ r.gone = r.cleaned :: r.gone := by
    rw [hxdp]
    rfl
  by_cases hlast : r.eopAt r.cleaned = true
  · by_cases hs : Single r.eopAt r.cleaned
    · -- a frame of one descriptor: no stale mark, so it goes to the program
      obtain ⟨hstale, hfull⟩ := hok hlen hs
      have hclear : r.discard r.nextToClean = false := by
        rw [hmark, Bool.eq_false_iff]
        exact fun hc => hstale (hs.markAt_iff.mp hc)
      rcases cleanZc_ran returns (v := v) hlen (heop.trans hlast) hclear with ⟨-, heq⟩ | ⟨-, heq⟩
      · rw [heq]
        refine ⟨{ hI with },
          fun d hd => ?_, fun d hd hds => mem_cons_of_mem _ (hL.single d hd hds), hL.dropped,
          hL.gone⟩
        rcases mem_cons.mp hd with rfl | hold
        · exact ⟨hw, hs⟩
        · exact hL.ran d hold
      · have honce : ¬ (v = .txFull ∧ returns = true) := by
          rintro ⟨hv, hr⟩
          rw [hfull hv] at hr
          exact absurd hr (by decide)
        rw [if_neg honce, nil_append, hgone] at heq
        rw [heq]
        refine ⟨hI.advance hw (fun i hi => ?_) le_rfl, ?_⟩
        · rw [← hI.mark_last hlast i hi, ← hclear, update_eq_self]
        · refine hL.advance hw rfl rfl rfl rfl (fun d => ?_) fun d hd => .inl hd
          change d ∈ r.cleaned :: r.ran ↔ _
          rw [mem_cons, or_comm]
          exact or_congr_right ⟨fun h => ⟨h, hs⟩, fun h => h.1⟩
    · -- the end of a longer frame: marked, and dropped
      have hset : r.discard r.nextToClean = true := by
        rw [hmark]
        exact markAt_of_not_single hlast hs
      rw [cleanZc_marked hlen (heop.trans hlast) hset, hgone]
      refine ⟨hI.advance hw (hI.mark_last hlast) (le_succ _), ?_⟩
      refine hL.advance hw rfl rfl rfl rfl (fun d => ?_) fun d hd => ?_
      · exact ⟨.inl, fun h => h.resolve_right fun hc => hs hc.2⟩
      · rcases mem_cons.mp hd with rfl | hold
        · exact .inr ⟨rfl, hs⟩
        · exact .inl hold
  · have hnot := Bool.eq_false_iff.mpr hlast
    rw [cleanZc_long hlen (heop.trans hnot), hgone]
    refine ⟨hI.advance hw (hI.mark_long hnot) (le_succ _), ?_⟩
    refine hL.advance hw rfl rfl rfl rfl (fun d => ?_) fun d hd => .inl hd
    exact ⟨.inl, fun h => h.resolve_right fun hc => hlast hc.2.1⟩

theorem ZcRing.Inv.not_exact (hI : r.Inv) (hL : r.Log)
    (hbad : ¬ CleansWell returns r (.clean v)) : ¬ (cleanZc returns r v).Exact := by
  rw [CleansWell] at hbad
  push Not at hbad
  obtain ⟨hlen, hs, hbad⟩ := hbad
  intro hE
  have hw := hI.waiting hlen
  have hwt := hI.written_le
  obtain ⟨hxdp, heop, hmark⟩ := hI.here hw
  by_cases hstale : LeftMarked r.eopAt r.count r.cleaned
  · -- dropped for a mark that is not its own
    have hset : r.discard r.nextToClean = true := by
      rw [hmark]
      exact hs.markAt_iff.mpr hstale
    rw [cleanZc_marked hlen (heop.trans hs.1) hset] at hE
    exact (hE.single r.cleaned (lt_succ_self _) hs).2 (mem_cons_self ..)
  · -- the buffer is gone twice
    obtain ⟨hv, hret⟩ := hbad hstale
    have hclear : r.discard r.nextToClean = false := by
      rw [hmark, Bool.eq_false_iff]
      exact fun hc => hstale (hs.markAt_iff.mp hc)
    rcases cleanZc_ran returns (v := v) hlen (heop.trans hs.1) hclear with ⟨hv', -⟩ | ⟨-, heq⟩
    · rw [hv] at hv'
      cases hv'
    · rw [if_pos ⟨hv, by simpa using hret⟩, hxdp] at heq
      rw [heq] at hE
      have htwice : List.count r.cleaned (r.cleaned :: r.cleaned :: r.gone) = 2 := by
        rw [count_cons_self, count_cons_self, hL.gone, if_neg (lt_irrefl _)]
      rcases hE.buffers r.cleaned (show r.cleaned < r.taken by omega) with ⟨h, -⟩ | ⟨h, -⟩
      · exact absurd (htwice.symm.trans h) (by decide)
      · exact absurd (htwice.symm.trans h) (by decide)

theorem ZcRing.Inv.descUnused_eq (hI : r.Inv) :
    descUnused r.count r.nextToClean r.nextToUse = r.cleaned + r.count - 1 - r.taken := by
  have hcw := hI.cleaned_le
  have hwt := hI.written_le
  have hlt := hI.taken_lt
  have huse : r.nextToUse = slot r.count r.nextToClean (r.taken - r.cleaned) := by
    rw [hI.clean, slot_mod, Nat.add_sub_cancel' (by omega), hI.use]
  rw [huse, descUnused_slot hI.lt16 (hI.clean ▸ Nat.mod_lt _ hI.pos) (by omega)]
  omega

theorem ZcRing.Inv.writeBack (hI : r.Inv) (hL : r.Log) (hne : r.head ≠ r.nextToUse) (len : ℕ)
    (eop : Bool) :
    let r' : ZcRing := { r with
      len := update r.len r.head (len + 1), eop := update r.eop r.head eop
      head := next r.count r.head, written := r.written + 1
      eopAt := update r.eopAt r.written eop }
    r'.Inv ∧ r'.Log := by
  have hcw := hI.cleaned_le
  have hwt : r.written < r.taken := by
    refine lt_of_le_of_ne hI.written_le fun heq => hne ?_
    rw [hI.head, hI.use, heq]
  have hlt := hI.taken_lt
  have hold : ∀ e < r.written, update r.eopAt r.written eop e = r.eopAt e :=
    fun e he => update_of_ne (by omega) _ _
  have hother : ∀ d, r.cleaned ≤ d → d ≤ r.taken → d ≠ r.written →
      d % r.count ≠ r.written % r.count := fun d hd hd' hdw =>
    mod_ne hdw (by omega) (by omega)
  refine ⟨⟨hI.lt16, hI.pos, hI.clean, hI.use, ?_, by dsimp only; omega, hwt, hlt, hI.xdp,
    hI.xdp_none, fun d hd hd' => ?_, fun d hd hd' => ?_, fun i hi => ?_, hI.room⟩,
    fun d hd => ?_, fun d hd hs => ?_, fun d hd => ?_, hL.gone⟩
  · dsimp only
    rw [hI.head, next_mod hI.pos]
  · dsimp only at hd hd' ⊢
    rw [hI.head, update_of_ne (hother d (by omega) hd' (by omega))]
    exact hI.len d (by omega) hd'
  · dsimp only at hd hd' ⊢
    rw [hI.head]
    by_cases hnew : d = r.written
    · rw [hnew, update_self, update_self]
    · rw [update_of_ne (hother d hd (by omega) hnew), update_of_ne hnew]
      exact hI.eop d hd (by omega)
  · dsimp only
    rw [hI.discard i hi]
    exact (markAt_congr (fun e he => hold e (by omega)) i).symm
  · obtain ⟨hlt', hs⟩ := hL.ran d hd
    exact ⟨lt_succ_of_lt hlt', (Single.congr hold hlt').mpr hs⟩
  · dsimp only at hd hs
    exact hL.single d hd ((Single.congr hold (by omega)).mp hs)
  · obtain ⟨hlt', hs⟩ := hL.dropped d hd
    exact ⟨lt_succ_of_lt hlt', fun hc => hs ((Single.congr hold hlt').mp hc)⟩

theorem ZcRing.Inv.step {e : ZcEvent} (hI : r.Inv) (hL : r.Log)
    (hok : CleansWell returns r e) : (zcStep returns r e).Inv ∧ (zcStep returns r e).Log := by
  cases e with
  | irq =>
    refine ⟨{ hI with room := ?_ }, hL.ran, hL.single, hL.dropped, hL.gone⟩
    exact hI.descUnused_eq.le
  | refill alloc =>
    rw [zcStep]
    split
    · split
      · exact ⟨{ hI with room := zero_le _ }, hL.ran, hL.single, hL.dropped, hL.gone⟩
      · have hroom := hI.room
        obtain ⟨xdp, len, j, heq, hf, hj⟩ := hI.refill alloc hroom
        dsimp only
        rw [heq]
        exact ⟨hf.inv hI (by omega) _, hL.ran, hL.single, hL.dropped, hL.gone⟩
    · exact ⟨hI, hL⟩
  | clean v => exact hI.clean_desc hL hok
  | writeBack len eop =>
    rw [zcStep]
    split
    · exact ⟨hI, hL⟩
    case isFalse hne =>
      exact hI.writeBack hL hne len eop

theorem ZcRing.Fresh.start (hF : r.Fresh) (alloc : ℕ → Bool) :
    (fillZcRing alloc r).Inv ∧ (fillZcRing alloc r).Log := by
  have hmod : 0 % r.count = 0 := zero_mod _
  have hI : r.Inv := by
    refine ⟨hF.lt, hF.pos, ?_, ?_, ?_, ?_, ?_, ?_, ?_, ?_, ?_, ?_, ?_, ?_⟩
    · rw [hF.nextToClean, hF.cleaned, hmod]
    · rw [hF.nextToUse, hF.taken, hmod]
    · rw [hF.head, hF.written, hmod]
    · rw [hF.cleaned]
      exact zero_le _
    · rw [hF.written]
      exact zero_le _
    · rw [hF.taken, hF.cleaned, zero_add]
      exact hF.pos
    · intro d _ hd
      rw [hF.taken] at hd
      exact absurd hd (not_lt_zero d)
    · exact fun d _ _ => hF.xdp _
    · intro d _ hd
      rw [hF.taken] at hd
      rw [le_zero.mp hd, hmod]
      exact hF.len
    · intro d _ hd
      rw [hF.written] at hd
      exact absurd hd (not_lt_zero d)
    · intro i _
      rw [hF.discard, hF.cleaned]
      rfl
    · rw [hF.cleanedCount]
      exact zero_le _
  have hL : r.Log := by
    refine ⟨fun d hd => ?_, fun d hd => ?_, fun d hd => ?_, fun d => ?_⟩
    · rw [hF.ran] at hd
      exact absurd hd not_mem_nil
    · rw [hF.cleaned] at hd
      exact absurd hd (not_lt_zero d)
    · rw [hF.dropped] at hd
      exact absurd hd not_mem_nil
    · rw [hF.gone, hF.cleaned, if_neg (not_lt_zero d), count_nil]
  obtain ⟨xdp, len, j, heq, hf, hj⟩ := hI.refill alloc hI.descUnused_eq.le
  rw [hI.descUnused_eq] at hj
  rw [fillZcRing, heq]
  have hinv := hf.inv hI hj r.failure
  have hcount := hF.cleanedCount
  refine ⟨{ hinv with room := ?_ }, hL.ran, hL.single, hL.dropped, hL.gone⟩
  rw [hcount]
  exact zero_le _

end

/-- **Zero-copy receive is exact along a run if and only if every step cleans well.** -/
theorem zc_exact_iff (returns : Bool) (r : ZcRing) (hF : r.Fresh) (alloc : ℕ → Bool)
    (es : List ZcEvent) :
    After (zcStep returns) ZcRing.Exact (fillZcRing alloc r) es ↔
      Along (zcStep returns) (CleansWell returns) (fillZcRing alloc r) es := by
  refine after_iff_along (fun _ _ => True)
    (fun r e (h : r.Inv ∧ r.Log) _ hok => h.1.step h.2 hok) (fun r h => h.1.exact h.2)
    (fun r e h _ hbad => ?_)
    (hF.start alloc) (along_of_forall _ es fun _ _ => trivial)
  cases e with
  | clean v => exact h.1.not_exact h.2 hbad
  | irq => exact absurd trivial hbad
  | refill alloc => exact absurd trivial hbad
  | writeBack len eop => exact absurd trivial hbad

def freshZcRing : ZcRing where
  count := 17
  nextToClean := 0
  nextToUse := 0
  xdp := fun _ => none
  discard := fun _ => false
  len := fun _ => 0
  eop := fun _ => false
  cleanedCount := 0
  failure := false
  head := 0
  taken := 0
  written := 0
  eopAt := fun _ => false
  cleaned := 0
  ran := []
  dropped := []
  gone := []

theorem freshZcRing_fresh : freshZcRing.Fresh :=
  ⟨by decide, by decide, rfl, rfl, rfl, fun _ => rfl, fun _ => rfl, rfl, rfl, rfl, rfl, rfl, rfl,
    rfl, rfl⟩

theorem zc_exact_pass :
    After (zcStep true) ZcRing.Exact (fillZcRing (fun _ => true) freshZcRing)
      [.writeBack 59 true, .irq, .clean (.pass false), .clean (.pass true)] := by
  refine (zc_exact_iff true freshZcRing freshZcRing_fresh _ _).mpr ?_
  have hfresh : ∀ (r : ZcRing) (v : ZcVerdict), v ≠ .txFull → r.cleaned = 0 →
      CleansWell true r (.clean v) := by
    rintro r v hv h0 - -
    refine ⟨?_, fun hc => absurd hc hv⟩
    rintro ⟨m, hm, -⟩
    rw [h0] at hm
    exact not_lt_zero m hm
  refine ⟨trivial, trivial, hfresh _ _ (by decide) ?_, hfresh _ _ (by decide) ?_, trivial⟩
  · decide +kernel
  · decide +kernel

/-- The frame at position 18 is dropped, after one of three descriptors. -/
theorem zc_single_dropped :
    let r := run (zcStep true) (fillZcRing (fun _ => true) freshZcRing)
      ([.writeBack 59 false, .writeBack 59 false] ++ List.replicate 14 (.writeBack 59 true) ++
        [.irq] ++ List.replicate 16 (.clean .consumed) ++ [.irq, .refill fun _ => true] ++
        List.replicate 3 (.writeBack 59 true) ++ List.replicate 3 (.clean .consumed))
    (r.eopAt 18 = true ∧ r.eopAt 17 = true) ∧ r.cleaned = 19 ∧ 18 ∉ r.ran ∧ 18 ∈ r.dropped := by
  decide +kernel

end Ixgbe
