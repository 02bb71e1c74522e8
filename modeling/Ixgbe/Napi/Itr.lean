import Ixgbe.Hw.Basic
import Ixgbe.Library.EventRun

/-! # Adaptive interrupt moderation

`ixgbe_set_itr` (`ixgbe_main.c`). The delay shares a byte with `IXGBE_ITR_ADAPTIVE_LATENCY` and may
run into that bit. -/

namespace Ixgbe

open EventRun

/-- `IXGBE_LINK_SPEED_*`. -/
inductive LinkSpeed
  | unknown
  | full10
  | full100
  | full1Gb
  | full2500
  | full5Gb
  | full10Gb
  deriving DecidableEq, Repr

/-- The switch over the link speed, with `DIV_ROUND_UP` written out. -/
def LinkSpeed.itr : LinkSpeed → ℕ → ℕ
  | .full2500, avg | .full1Gb, avg | .full10, avg => (avg + 127) / 128 * 2
  | _, avg => (avg + 511) / 512 * 2

/-- For an average of `avg` bytes, with 256 packets or more. -/
def bulkWireSize (avg : ℕ) : ℕ :=
  if avg ≤ 60 then 5120
  else if avg ≤ 316 then avg * 40 + 2720
  else if avg ≤ 1084 then avg * 15 + 11452
  else if avg ≤ 1980 then avg * 5 + 22420
  else 32256

structure ItrSample where
  ring : Bool
  /-- `time_after(next_update, ring_container->next_update)`. -/
  late : Bool
  packets : ℕ
  bytes : ℕ
  speed : LinkSpeed

def ItrSample.Few (x : ItrSample) (rx : Bool) : Prop :=
  rx = true ∧ x.packets ≠ 0 ∧ x.packets < 24 ∧ x.bytes < 12112

instance (x : ItrSample) (rx : Bool) : Decidable (x.Few rx) := inferInstanceAs (Decidable (_ ∧ _))

def ItrSample.sized (x : ItrSample) (rx : Bool) : ℕ :=
  x.speed.itr (if x.Few rx then max (min ((x.bytes + x.packets * 24) * 2) 12800) 2560
    else bulkWireSize (x.bytes / x.packets))

/-- With the latency bit, the delay is reduced by 2 µs at most. -/
def limitItr (old itr : ℕ) : ℕ := if itr / 128 % 2 = 1 ∧ itr < old then old - 2 else itr

/-- Below `2 ^ 16`, so `min_t(u16, ...)` cuts nothing off. -/
def updateItr (rx : Bool) (qItr old : ℕ) (x : ItrSample) : ℕ :=
  if x.ring = false then old
  else min (if x.late then 138
    else if x.Few rx then limitItr old (128 + x.sized rx)
    else if x.packets < 48 then
      min (qItr / 4 + 2) 84 + if x.packets < 8 then 128 else old / 128 % 2 * 128
    else if x.packets < 96 then qItr / 4
    else if x.packets < 256 then max (qItr / 8) 10
    else limitItr old (x.sized rx)) 255

structure ItrState where
  vector : ℕ
  tx : ℕ
  rx : ℕ

def setItr (s : ItrState) (e : ItrSample × ItrSample) : ItrState :=
  let tx := updateItr false s.vector s.tx e.1
  let rx := updateItr true s.vector s.rx e.2
  ⟨(min rx tx &&& 126) <<< 2, tx, rx⟩

/-- At most `bound` besides the bit, which is off after 96 packets or more. -/
def Encoded (bound v : ℕ) (x : ItrSample) : Prop :=
  v % 128 ≤ bound ∧ (x.ring = true → x.late = false → 96 ≤ x.packets → v < 128)

def ItrSample.Fits (x : ItrSample) (bound : ℕ) (rx : Bool) (qItr : ℕ) : Prop :=
  x.ring = true → x.late = false →
    if x.Few rx ∨ 256 ≤ x.packets then x.sized rx ≤ bound
    else if x.packets < 48 then True
    else if x.packets < 96 then min (qItr / 4) 255 % 128 ≤ bound
    else max (qItr / 8) 10 ≤ bound

theorem encoded_updateItr_iff {bound old : ℕ} (hlo : 84 ≤ bound) (hhi : bound ≤ 126)
    (hold : old % 128 ≤ bound) (hbyte : old ≤ 255) (rx : Bool) (qItr : ℕ) (x : ItrSample) :
    Encoded bound (updateItr rx qItr old x) x ↔ x.Fits bound rx qItr := by
  have hsized : x.Few rx → 10 ≤ x.sized rx := by
    intro h
    unfold ItrSample.sized LinkSpeed.itr
    rw [if_pos h]
    split <;> omega
  unfold Encoded ItrSample.Fits updateItr limitItr
  cases x.ring
  · simpa using hold
  · cases x.late
    · simp only [reduceCtorEq, if_false, forall_const]
      by_cases hfew : x.Few rx
      · have := hsized hfew
        have := hfew.2.2.1
        simp only [hfew, true_or, if_true]
        split_ifs <;> omega
      · simp only [hfew, false_or, if_false]
        by_cases h48 : x.packets < 48
        · have hmin : min (qItr / 4 + 2) 84 ≤ 84 := min_le_right _ _
          rw [if_pos h48, if_neg (by omega : ¬ 256 ≤ x.packets), if_pos h48, iff_true]
          split_ifs <;> omega
        · rw [if_neg h48]
          split_ifs <;> omega
    · simp
      omega

theorem updateItr_le {old : ℕ} (hold : old ≤ 255) (rx : Bool) (qItr : ℕ) (x : ItrSample) :
    updateItr rx qItr old x ≤ 255 := by
  unfold updateItr
  split
  · exact hold
  · exact min_le_right _ _

/-- **The encoding is kept in a run** if and only if every update keeps to the bound. -/
theorem itr_encoded_iff (bound vector : ℕ) (hlo : 84 ≤ bound) (hhi : bound ≤ 126)
    (es : List (ItrSample × ItrSample)) :
    Along setItr (fun s e => Encoded bound (setItr s e).tx e.1 ∧ Encoded bound (setItr s e).rx e.2)
        ⟨vector, 84 ||| 0x80, 84 ||| 0x80⟩ es ↔
      Along setItr (fun s e => e.1.Fits bound false s.vector ∧ e.2.Fits bound true s.vector)
        ⟨vector, 84 ||| 0x80, 84 ||| 0x80⟩ es := by
  let inv : ItrState → Prop := fun s =>
    (s.tx % 128 ≤ bound ∧ s.tx ≤ 255) ∧ s.rx % 128 ≤ bound ∧ s.rx ≤ 255
  have hiff : ∀ s e, inv s → True →
      (Encoded bound (setItr s e).tx e.1 ∧ Encoded bound (setItr s e).rx e.2 ↔
        e.1.Fits bound false s.vector ∧ e.2.Fits bound true s.vector) := fun s e h _ =>
    and_congr (encoded_updateItr_iff hlo hhi h.1.1 h.1.2 false s.vector e.1)
      (encoded_updateItr_iff hlo hhi h.2.1 h.2.2 true s.vector e.2)
  have hstep : ∀ s e, inv s → True →
      e.1.Fits bound false s.vector ∧ e.2.Fits bound true s.vector → inv (setItr s e) := by
    intro s e h _ hok
    have henc := (hiff s e h trivial).mpr hok
    exact ⟨⟨henc.1.1, updateItr_le h.1.2 ..⟩, henc.2.1, updateItr_le h.2.2 ..⟩
  have hinit : inv ⟨vector, 84 ||| 0x80, 84 ||| 0x80⟩ := by
    change (212 % 128 ≤ bound ∧ 212 ≤ 255) ∧ 212 % 128 ≤ bound ∧ 212 ≤ 255
    omega
  exact along_iff_along (fun _ _ => True) hstep hiff hinit (along_of_forall _ es fun _ _ => trivial)

theorem itr_encoded_ten_gigabit :
    Along setItr (fun s e => Encoded 126 (setItr s e).tx e.1 ∧ Encoded 126 (setItr s e).rx e.2)
      ⟨200, 84 ||| 0x80, 84 ||| 0x80⟩
      [(⟨true, false, 300, 450000, .full10Gb⟩, ⟨true, false, 300, 450000, .full10Gb⟩)] :=
  (itr_encoded_iff 126 200 (by decide) (by decide) _).mpr
    ⟨⟨fun _ _ => by decide, fun _ _ => by decide⟩, trivial⟩

-- 300 packets of 1500 bytes give 468 at 1 Gb/s, cut off at 255: bit 7 is set, the delay is 127.
theorem itr_not_encoded :
    ¬ Along setItr (fun s e => Encoded 126 (setItr s e).tx e.1 ∧ Encoded 126 (setItr s e).rx e.2)
      ⟨200, 84 ||| 0x80, 84 ||| 0x80⟩
      [(⟨true, false, 300, 450000, .full1Gb⟩, ⟨true, false, 300, 450000, .full1Gb⟩)] := by
  intro h
  exact absurd (h.1.2.2 rfl rfl (by decide)) (by decide)

end Ixgbe
