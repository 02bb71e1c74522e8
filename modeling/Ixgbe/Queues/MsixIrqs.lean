import Ixgbe.Library.Traced
import Ixgbe.Queues.Vectors

/-! # Requesting the MSI-X interrupts

`ixgbe_request_msix_irqs` skips the vectors without rings when it requests, and not when it frees
after a failure. -/

namespace Ixgbe

open Traced

inductive IrqName
  | txRx (n : ℕ)
  | rx (n : ℕ)
  | tx (n : ℕ)
  | netdev
  deriving DecidableEq, Repr

/-- With what `request_irq` returned. -/
inductive IrqEvent
  | request (entry : ℕ) (name : IrqName) (err : ℤ)
  | free (entry : ℕ)
  deriving DecidableEq, Repr

/-- None for a vector without rings. -/
def irqName (qv : VectorRings) (ri ti : ℕ) : Option (IrqName × ℕ × ℕ) :=
  if (qv.tx ≠ [] ∨ qv.xdp ≠ []) ∧ qv.rx ≠ [] then some (.txRx ri, ri + 1, ti + 1)
  else if qv.rx ≠ [] then some (.rx ri, ri + 1, ti)
  else if qv.tx ≠ [] ∨ qv.xdp ≠ [] then some (.tx ti, ri, ti + 1)
  else none

def VectorRings.Used (qv : VectorRings) : Prop := qv.tx ≠ [] ∨ qv.xdp ≠ [] ∨ qv.rx ≠ []

theorem irqName_isSome (qv : VectorRings) (ri ti : ℕ) : (irqName qv ri ti).isSome ↔ qv.Used := by
  unfold irqName VectorRings.Used
  split_ifs <;> simp <;> tauto

section

variable (qVector : ℕ → VectorRings) (req : ℕ → ℤ)

/-- The vector at which it stops and the error there. -/
def requestQueueIrqs : (left v ri ti : ℕ) → Traced IrqEvent (ℕ × ℤ)
  | 0, v, _, _ => pure (v, 0)
  | left + 1, v, ri, ti =>
    match irqName (qVector v) ri ti with
    | none => requestQueueIrqs left (v + 1) ri ti
    | some (name, ri', ti') => do
      emit (.request v name (req v))
      if req v ≠ 0 then pure (v, req v) else requestQueueIrqs left (v + 1) ri' ti'

def freeQueueIrqs : ℕ → Traced IrqEvent Unit
  | 0 => pure ()
  | v + 1 => do
    emit (.free v)
    freeQueueIrqs v

/-- With `req i` what `request_irq` returns for entry `i`. -/
def requestMsixIrqs (numQVectors : ℕ) : Traced IrqEvent ℤ := do
  let (v, err) ← requestQueueIrqs qVector req numQVectors 0 0 0
  if err ≠ 0 then
    freeQueueIrqs v
    pure err
  else
    emit (.request v .netdev (req v))
    if req v ≠ 0 then
      freeQueueIrqs v
      pure (req v)
    else pure 0

end

def Requested (t : List IrqEvent) (i : ℕ) : Prop := ∃ name, IrqEvent.request i name 0 ∈ t

/-- `free_irq` is called once for each interrupt requested with success and for no other. -/
def UnwindsExactly (t : List IrqEvent) : Prop :=
  ∀ i, (Requested t i → t.count (.free i) = 1) ∧ (¬ Requested t i → t.count (.free i) = 0)

theorem trace_freeQueueIrqs (v i : ℕ) :
    (freeQueueIrqs v).trace.count (.free i) = (if i < v then 1 else 0) ∧
      ¬ Requested (freeQueueIrqs v).trace i := by
  induction v with
  | zero => exact ⟨rfl, nofun⟩
  | succ v ih =>
    obtain ⟨hc, hr⟩ := ih
    have ht : (freeQueueIrqs (v + 1)).trace = .free v :: (freeQueueIrqs v).trace := rfl
    refine ⟨?_, fun ⟨n, hn⟩ => hr ⟨n, ?_⟩⟩
    · rw [ht, List.count_cons, hc]
      grind
    · rw [ht] at hn
      simpa using hn

section

variable {qVector : ℕ → VectorRings} {req : ℕ → ℤ}

/-- What the request loop has done where it stops. -/
structure LoopDone (qVector : ℕ → VectorRings) (req : ℕ → ℤ) (left v : ℕ)
    (x : Traced IrqEvent (ℕ × ℤ)) : Prop where
  le : v ≤ x.val.1
  requested : ∀ i, Requested x.trace i ↔ v ≤ i ∧ i < x.val.1 ∧ (qVector i).Used
  free : ∀ i, x.trace.count (.free i) = 0
  ok : ∀ i, v ≤ i → i < x.val.1 → (qVector i).Used → req i = 0
  stop : x.val.2 = 0 ∧ x.val.1 = v + left ∨
    x.val.2 = req x.val.1 ∧ req x.val.1 ≠ 0 ∧ (qVector x.val.1).Used ∧ x.val.1 < v + left

theorem requested_cons {v : ℕ} {name : IrqName} {t : List IrqEvent} (i : ℕ) :
    Requested (.request v name 0 :: t) i ↔ i = v ∨ Requested t i := by
  simp [Requested]
  grind

theorem requestQueueIrqs_done (left v ri ti : ℕ) :
    LoopDone qVector req left v (requestQueueIrqs qVector req left v ri ti) := by
  induction left generalizing v ri ti with
  | zero =>
    exact ⟨le_rfl, fun i => ⟨nofun, fun h => absurd h.2.1 (not_lt.mpr h.1)⟩, fun _ => rfl,
      fun i hi hlt => absurd hlt (not_lt.mpr hi), .inl ⟨rfl, rfl⟩⟩
  | succ left ih =>
    have hsome := irqName_isSome (qVector v) ri ti
    unfold requestQueueIrqs
    split
    · rename_i heq
      obtain ⟨hle, hr, hf, hok, hs⟩ := ih (v + 1) ri ti
      refine ⟨Nat.le_of_succ_le hle, ?_, hf, ?_, ?_⟩ <;> grind
    · rename_i name ri' ti' heq
      rw [heq] at hsome
      have hu : (qVector v).Used := hsome.mp rfl
      by_cases h0 : req v = 0
      · rw [if_neg (not_not.mpr h0), h0]
        have ih' := ih (v + 1) ri' ti'
        generalize requestQueueIrqs qVector req left (v + 1) ri' ti' = x at ih' ⊢
        change LoopDone qVector req _ v ⟨.request v name 0 :: x.trace, x.val⟩
        obtain ⟨hle, hr, hf, hok, hs⟩ := ih'
        refine ⟨Nat.le_of_succ_le hle, fun i => (requested_cons i).trans ?_, hf, ?_, ?_⟩ <;> grind
      · rw [if_pos h0]
        refine ⟨le_rfl, fun i => ⟨fun ⟨n, hn⟩ => ?_, fun h => absurd h.2.1 (not_lt.mpr h.1)⟩,
          fun _ => rfl, fun i hi hlt => absurd hlt (not_lt.mpr hi),
          .inr ⟨rfl, h0, hu, Nat.lt_add_of_pos_right (Nat.succ_pos left)⟩⟩
        exact absurd (IrqEvent.request.inj (List.mem_singleton.mp hn)).2.2.symm h0

theorem LoopDone.unwindsExactly_iff {n : ℕ} {x : Traced IrqEvent (ℕ × ℤ)}
    (h : LoopDone qVector req n 0 x) {t : List IrqEvent} (ht : ∀ i, ¬ Requested t i)
    (hf : ∀ i, t.count (.free i) = 0) :
    UnwindsExactly (x.trace ++ (t ++ (freeQueueIrqs x.val.1).trace)) ↔
      ∀ v < n, ¬ (qVector v).Used → ∃ w < v, (qVector w).Used ∧ req w ≠ 0 := by
  obtain ⟨-, hr, hx, hok, hs⟩ := h
  have hreq (i : ℕ) : Requested (x.trace ++ (t ++ (freeQueueIrqs x.val.1).trace)) i ↔
      i < x.val.1 ∧ (qVector i).Used := by
    have h2 := (trace_freeQueueIrqs x.val.1 i).2
    simp only [Requested, List.mem_append] at *
    grind
  have hcount (i : ℕ) : (x.trace ++ (t ++ (freeQueueIrqs x.val.1).trace)).count (.free i) =
      if i < x.val.1 then 1 else 0 := by
    rw [List.count_append, List.count_append, hx, hf, (trace_freeQueueIrqs x.val.1 i).1,
      zero_add, zero_add]
  unfold UnwindsExactly
  constructor
  · intro h v hv hu
    grind
  · intro h i
    grind

/-- **The interrupts freed after a failure are those requested exactly when no vector without rings
stands below.** -/
theorem requestMsixIrqs_unwindsExactly_iff (qVector : ℕ → VectorRings) (req : ℕ → ℤ) (n : ℕ)
    (herr : (requestMsixIrqs qVector req n).val ≠ 0) :
    UnwindsExactly (requestMsixIrqs qVector req n).trace ↔
      ∀ v < n, ¬ (qVector v).Used → ∃ w < v, (qVector w).Used ∧ req w ≠ 0 := by
  have hdone : LoopDone qVector req n 0 _ := requestQueueIrqs_done n 0 0 0
  have hu := fun t => hdone.unwindsExactly_iff (t := t)
  unfold requestMsixIrqs at herr ⊢
  generalize requestQueueIrqs qVector req n 0 0 0 = x at *
  obtain ⟨tr, v, err⟩ := x
  by_cases he : err ≠ 0
  · simpa [bind, Traced.bind, pure, Traced.pure, he] using hu [] (by simp [Requested]) (by simp)
  · have h0 : req v ≠ 0 := fun h0 => herr (by simp [not_not.mp he, h0])
    simpa [bind, Traced.bind, pure, Traced.pure, he, h0, emit, emits] using
      hu [.request v .netdev (req v)] (by simp [Requested, h0.symm]) (by simp)

theorem requestMsixIrqs_unwindsExactly_two :
    UnwindsExactly (requestMsixIrqs (fun v => ⟨[v], [], [v]⟩) (fun v => -v) 2).trace :=
  (requestMsixIrqs_unwindsExactly_iff _ _ 2 (by decide)).mpr fun v _ h =>
    absurd (.inl (List.cons_ne_nil v [])) h

/-- Vector 0 has no rings, and interrupt 0 is freed. -/
theorem requestMsixIrqs_frees_unrequested :
    ¬ UnwindsExactly (requestMsixIrqs (fun v => ⟨[], [], if v = 0 then [] else [v]⟩)
      (fun _ => -16) 2).trace := by
  intro h
  have ht : (requestMsixIrqs (fun v => ⟨[], [], if v = 0 then [] else [v]⟩) (fun _ => -16) 2).trace
      = [.request 1 (.rx 0) (-16), .free 0] := by decide
  rw [ht] at h
  exact absurd ((h 0).2 (by simp [Requested])) (by decide)

end

end Ixgbe
