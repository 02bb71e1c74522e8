import Mathlib.Data.List.Basic

/-! # Computations that leave a trace

A result with the list of the events emitted on the way, in order. -/

universe u v

/-- A result together with the events emitted on the way to it. -/
structure Traced (ε : Type u) (α : Type v) where
  trace : List ε
  val : α

namespace Traced

variable {ε : Type u} {α β : Type v} {P : ε → Prop} {Q : α → Prop} {R : β → Prop}

/-- Return a result, emitting nothing. -/
protected def pure (a : α) : Traced ε α := ⟨[], a⟩

/-- Run one computation, then another on its result. -/
protected def bind (x : Traced ε α) (f : α → Traced ε β) : Traced ε β :=
  ⟨x.trace ++ (f x.val).trace, (f x.val).val⟩

instance instMonad : Monad (Traced ε) where
  pure := Traced.pure
  bind := Traced.bind

/-- Emit a list of events. -/
def emits (us : List ε) : Traced ε PUnit.{v + 1} := ⟨us, ⟨⟩⟩

/-- Emit one event. -/
def emit (u : ε) : Traced ε PUnit.{v + 1} := emits [u]

/-- Fill a table: `f` is run for the entries `0` to `n - 1`, in order. -/
def table (n : ℕ) (f : ℕ → Traced ε α) : Traced ε (ℕ → α) :=
  ⟨(List.range n).flatMap fun i => (f i).trace, fun i => (f i).val⟩

@[simp] theorem val_pure (a : α) : (pure a : Traced ε α).val = a := rfl

@[simp] theorem val_bind (x : Traced ε α) (f : α → Traced ε β) :
    (x >>= f).val = (f x.val).val := rfl

theorem mem_bind_left {x : Traced ε α} (f : α → Traced ε β) {u : ε} (h : u ∈ x.trace) :
    u ∈ (x >>= f).trace :=
  List.mem_append_left _ h

theorem mem_bind_right {x : Traced ε α} {f : α → Traced ε β} {u : ε} (h : u ∈ (f x.val).trace) :
    u ∈ (x >>= f).trace :=
  List.mem_append_right _ h

/-- **The triple**: every event of `x` meets `P`, and its result meets `Q`. -/
def Sat (P : ε → Prop) (Q : α → Prop) (x : Traced ε α) : Prop :=
  (∀ u ∈ x.trace, P u) ∧ Q x.val

theorem sat_pure {a : α} (h : Q a) : Sat P Q (pure a : Traced ε α) :=
  ⟨fun _ hu => absurd hu (List.not_mem_nil), h⟩

/-- **Sequencing**: what the first part establishes is what the second may assume. -/
theorem sat_bind {x : Traced ε α} {f : α → Traced ε β} (hx : Sat P Q x)
    (hf : ∀ a, Q a → Sat P R (f a)) : Sat P R (x >>= f) := by
  obtain ⟨htrace, hval⟩ := hf x.val hx.2
  refine ⟨fun u hu => ?_, hval⟩
  rcases List.mem_append.mp hu with h | h
  · exact hx.1 u h
  · exact htrace u h

theorem sat_emits {us : List ε} (h : ∀ u ∈ us, P u) : Sat P (fun _ => True) (emits us) :=
  ⟨h, trivial⟩

theorem sat_emit {u : ε} (h : P u) : Sat P (fun _ => True) (emit u) :=
  sat_emits fun v hv => by rwa [List.mem_singleton.mp hv]

theorem sat_ite {c : Prop} [Decidable c] {x y : Traced ε α} (hx : c → Sat P Q x)
    (hy : ¬ c → Sat P Q y) : Sat P Q (if c then x else y) := by
  by_cases h : c
  · rw [if_pos h]
    exact hx h
  · rw [if_neg h]
    exact hy h

theorem sat_table {n : ℕ} {f : ℕ → Traced ε α} (h : ∀ i, Sat P Q (f i)) :
    Sat P (fun t => ∀ i, Q (t i)) (table n f) := by
  refine ⟨fun u hu => ?_, fun i => (h i).2⟩
  obtain ⟨i, _, hi⟩ := List.mem_flatMap.mp hu
  exact (h i).1 u hi

theorem Sat.mono {x : Traced ε α} {Q' : α → Prop} (h : Sat P Q x) (hQ : ∀ a, Q a → Q' a) :
    Sat P Q' x :=
  ⟨h.1, hQ _ h.2⟩

end Traced
