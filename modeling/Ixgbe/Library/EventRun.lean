import Mathlib.Data.List.Basic

/-! # Runs of deterministic event machines

A property of every state reached (`After`), and of every step, read on the state *before* it
(`Along`). -/

namespace EventRun

variable {σ τ ε : Type*}

/-- The state reached from `s` by the events `es`, taken in order. -/
def run (step : σ → ε → σ) (s : σ) (es : List ε) : σ := es.foldl step s

/-- `P` holds after each step of the run. -/
def After (step : σ → ε → σ) (P : σ → Prop) : σ → List ε → Prop
  | _, [] => True
  | s, e :: es => P (step s e) ∧ After step P (step s e) es

/-- `ok s e` holds at each step, `s` being the state before it. -/
def Along (step : σ → ε → σ) (ok : σ → ε → Prop) : σ → List ε → Prop
  | _, [] => True
  | s, e :: es => ok s e ∧ Along step ok (step s e) es

variable {step : σ → ε → σ} {P Inv : σ → Prop} {ok : σ → ε → Prop}

@[simp] theorem after_cons (s : σ) (e : ε) (es : List ε) :
    After step P s (e :: es) ↔ P (step s e) ∧ After step P (step s e) es := Iff.rfl

@[simp] theorem along_cons (s : σ) (e : ε) (es : List ε) :
    Along step ok s (e :: es) ↔ ok s e ∧ Along step ok (step s e) es := Iff.rfl

theorem along_of_forall {q : ε → Prop} (s : σ) (es : List ε) (h : ∀ e ∈ es, q e) :
    Along step (fun _ e => q e) s es := by
  induction es generalizing s with
  | nil => trivial
  | cons e es ih =>
    exact ⟨h e (List.mem_cons_self ..), ih _ fun f hf => h f (List.mem_cons_of_mem _ hf)⟩

variable {ok' : σ → ε → Prop} {s : σ} {es : List ε}

theorem along_and (s : σ) (es : List ε) :
    Along step (fun s e => ok s e ∧ ok' s e) s es ↔ Along step ok s es ∧ Along step ok' s es := by
  induction es generalizing s with
  | nil => exact ⟨fun h => ⟨h, h⟩, fun h => h.1⟩
  | cons e es ih =>
    rw [along_cons, along_cons, along_cons, ih]
    exact and_and_and_comm

section

variable (hstep : ∀ s e, Inv s → ok s e → Inv (step s e))

include hstep

/-- **Invariant rule**: what every admissible step keeps holds at the end of a run of them. -/
theorem run_inv (hs : Inv s) (hok : Along step ok s es) : Inv (run step s es) := by
  induction es generalizing s with
  | nil => exact hs
  | cons e es ih => exact ih (hstep s e hs hok.1) hok.2

theorem after_of_inv (hP : ∀ s, Inv s → P s)
    (hs : Inv s) (hok : Along step ok s es) : After step P s es := by
  induction es generalizing s with
  | nil => trivial
  | cons e es ih =>
    have hs' := hstep s e hs hok.1
    exact ⟨hP _ hs', ih hs' hok.2⟩

theorem along_of_inv (h : ∀ s e, Inv s → ok s e → ok' s e) (hs : Inv s)
    (hok : Along step ok s es) : Along step ok' s es := by
  induction es generalizing s with
  | nil => trivial
  | cons e es ih => exact ⟨h s e hs hok.1, ih (hstep s e hs hok.1) hok.2⟩

end

/-- **Equivalence rule**: if the steps that meet a condition keep the invariant, and under it
another condition agrees with the first, then the two agree on every run of legal steps. -/
theorem along_iff_along (legal : σ → ε → Prop)
    (hstep : ∀ s e, Inv s → legal s e → ok s e → Inv (step s e))
    (h : ∀ s e, Inv s → legal s e → (ok' s e ↔ ok s e)) (hs : Inv s) (hl : Along step legal s es) :
    Along step ok' s es ↔ Along step ok s es := by
  induction es generalizing s with
  | nil => exact Iff.rfl
  | cons e es ih =>
    rw [along_cons, along_cons, h s e hs hl.1]
    exact and_congr_right fun hok => ih (hstep s e hs hl.1 hok) hl.2

theorem after_iff_along_step (s : σ) (es : List ε) :
    After step P s es ↔ Along step (fun s e => P (step s e)) s es := by
  induction es generalizing s with
  | nil => exact Iff.rfl
  | cons e es ih => rw [after_cons, along_cons, ih]

/-- **Exactness rule**: if admissible steps keep the invariant, it implies the property, and every
inadmissible step breaks the property, then the property holds all along a run iff every step is
admissible. -/
theorem after_iff_along (legal : σ → ε → Prop)
    (hstep : ∀ s e, Inv s → legal s e → ok s e → Inv (step s e))
    (hP : ∀ s, Inv s → P s) (hbad : ∀ s e, Inv s → legal s e → ¬ ok s e → ¬ P (step s e))
    (hs : Inv s) (hl : Along step legal s es) :
    After step P s es ↔ Along step ok s es := by
  rw [after_iff_along_step]
  refine along_iff_along legal hstep (fun s e h hle => ⟨fun hp => ?_, fun hok => ?_⟩) hs hl
  · by_contra hok
    exact hbad s e h hle hok hp
  · exact hP _ (hstep s e h hle hok)

/-- **Simulation rule**: a relation kept by matching steps holds after matching runs. -/
theorem run_sim {step' : τ → ε → τ} {R : σ → τ → Prop}
    (hstep : ∀ s t e, R s t → R (step s e) (step' t e)) {t : τ} (h : R s t) :
    R (run step s es) (run step' t es) := by
  induction es generalizing s t with
  | nil => exact h
  | cons e es ih => exact ih (hstep s t e h)

end EventRun
