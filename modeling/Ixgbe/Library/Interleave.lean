import Ixgbe.Library.EventRun

/-! # Interleaved programs over a shared state

Agents run programs that are trees of accesses. An `Outline` says that an access is **safe** while a
**condition** on the schedule is met, and unsafe in reach once it is broken. -/

namespace Interleave

open EventRun Function

universe u v w

/-- A program: a result, or an access and what to do with its response. -/
inductive Prog (Op : Type u) (R : Type v) (α : Type w)
  | ret (a : α)
  | op (o : Op) (k : R → Prog Op R α)

namespace Prog

variable {Op : Type u} {R : Type v} {α β γ : Type w}

/-- Run one program, then another on its result. -/
protected def bind : Prog Op R α → (α → Prog Op R β) → Prog Op R β
  | ret a, f => f a
  | op o k, f => op o fun r => (k r).bind f

instance instMonad : Monad (Prog Op R) where
  pure := ret
  bind := Prog.bind

/-- One access. -/
def access (o : Op) : Prog Op R R := op o ret

@[simp] theorem pure_bind (a : α) (f : α → Prog Op R β) : (pure a >>= f) = f a := rfl

@[simp] theorem op_bind (o : Op) (k : R → Prog Op R α) (f : α → Prog Op R β) :
    (op o k >>= f) = op o fun r => k r >>= f := rfl

@[simp] theorem bind_assoc (p : Prog Op R α) (f : α → Prog Op R β) (g : β → Prog Op R γ) :
    (p >>= f) >>= g = p >>= fun a => f a >>= g := by
  induction p with
  | ret a => rfl
  | op o k ih =>
    exact congrArg (op o) (funext ih)

end Prog

/-- What an access does, the programs that may be called, and what may happen from outside; the
safety of an access and of a result, and the condition. -/
structure System (ι σ Op R α γ ε : Type*) where
  exec : ι → Op → σ → R × σ
  prog : γ → Prog Op R α
  env : ε → σ → σ
  safe : ι → Op → σ → Prop
  retOk : α → Prop
  ok : ι → Op → σ → Prop

/-- The shared state and what each agent has still to run. -/
structure Pool (ι σ Op R α : Type*) where
  shared : σ
  agent : ι → Prog Op R α

/-- A call of an idle agent, the next access of an agent, or a change from outside. -/
inductive Event (ι γ ε : Type*)
  | call (i : ι) (c : γ)
  | step (i : ι)
  | env (e : ε)

variable {ι σ Op R α γ ε Λ : Type*}

namespace System

variable (S : System ι σ Op R α γ ε)

/-- A call of a busy agent and a step of an idle one do nothing. -/
def next [DecidableEq ι] (s : Pool ι σ Op R α) : Event ι γ ε → Pool ι σ Op R α
  | .call i c =>
    match s.agent i with
    | .ret _ => { s with agent := Function.update s.agent i (S.prog c) }
    | .op _ _ => s
  | .step i =>
    match s.agent i with
    | .ret _ => s
    | .op o k =>
      { shared := (S.exec i o s.shared).2
        agent := Function.update s.agent i (k (S.exec i o s.shared).1) }
  | .env e => { s with shared := S.env e s.shared }

/-- The access is safe, and so is the result if the program ends. -/
def Keeps (s : Pool ι σ Op R α) : Event ι γ ε → Prop
  | .step i =>
    match s.agent i with
    | .ret _ => True
    | .op o k =>
      S.safe i o s.shared ∧ ∀ a, k (S.exec i o s.shared).1 = .ret a → S.retOk a
  | _ => True

/-- The access of an event meets the condition. -/
def Meets (s : Pool ι σ Op R α) : Event ι γ ε → Prop
  | .step i =>
    match s.agent i with
    | .ret _ => True
    | .op o _ => S.ok i o s.shared
  | _ => True

/-- **A safe state**: every continuation that meets the condition is safe. -/
def Safe [DecidableEq ι] (s : Pool ι σ Op R α) : Prop :=
  ∀ es, Along S.next S.Meets s es → Along S.next S.Keeps s es

/-- Run alone, meeting the condition, it comes to an unsafe access or result. -/
def Doomed (i : ι) : Prog Op R α → σ → Prop
  | .ret a, _ => ¬ S.retOk a
  | .op o k, s =>
    S.ok i o s ∧ (¬ S.safe i o s ∨ Doomed i (k (S.exec i o s).1) (S.exec i o s).2)

variable {S}

section

variable {s : Pool ι σ Op R α} {i : ι} {o : Op} {k : R → Prog Op R α}

theorem keeps_step
    (h : s.agent i = .op o k) :
    S.Keeps s (.step i) ↔
      S.safe i o s.shared ∧ ∀ a, k (S.exec i o s.shared).1 = .ret a → S.retOk a := by
  rw [Keeps, h]

theorem meets_step (h : s.agent i = .op o k) : S.Meets s (.step i) ↔ S.ok i o s.shared := by
  rw [Meets, h]

end

variable [DecidableEq ι]

theorem next_step {s : Pool ι σ Op R α} {i : ι} {o : Op} {k : R → Prog Op R α}
    (h : s.agent i = .op o k) :
    S.next s (.step i) =
      { shared := (S.exec i o s.shared).2
        agent := update s.agent i (k (S.exec i o s.shared).1) } := by
  rw [next, h]

/-- **An agent that runs into an unsafe access makes the state unsafe.** An access on the way is one
more step of the continuation. -/
theorem not_safe_of_doomed {i : ι} {p : Prog Op R α} (hp : ∀ a, p ≠ .ret a) {s : Pool ι σ Op R α}
    (h : s.agent i = p) (hd : S.Doomed i p s.shared) : ¬ S.Safe s := by
  induction p generalizing s with
  | ret a => exact absurd rfl (hp a)
  | op o k ih =>
    intro hsafe
    obtain ⟨hok, hd⟩ := hd
    have hmeets : S.Meets s (.step i) := (meets_step h).mpr hok
    have hkeeps := (hsafe [.step i] ⟨hmeets, trivial⟩).1
    rw [keeps_step h] at hkeeps
    rcases hd with hun | hd
    · exact hun hkeeps.1
    · by_cases hret : ∃ a, k (S.exec i o s.shared).1 = .ret a
      · obtain ⟨a, ha⟩ := hret
        rw [ha] at hd
        exact hd (hkeeps.2 a ha)
      · have hnext := next_step (S := S) h
        refine ih _ (fun a ha => hret ⟨a, ha⟩) (s := S.next s (.step i)) ?_ ?_ fun es hes =>
          (hsafe (.step i :: es) ⟨hmeets, hes⟩).2
        · rw [hnext]
          exact update_self ..
        · rw [hnext]
          exact hd

/-- The same system without a condition on the schedule. -/
def lax (S : System ι σ Op R α γ ε) : System ι σ Op R α γ ε := { S with ok := fun _ _ _ => True }

theorem exists_not_keeps {i : ι} {o : Op} {k : R → Prog Op R α} {s : Pool ι σ Op R α}
    (h : s.agent i = .op o k) (hd : S.lax.Doomed i (.op o k) s.shared) :
    ∃ es, ¬ Along S.next S.Keeps s es := by
  by_contra hall
  push Not at hall
  exact not_safe_of_doomed (S := S.lax) (p := .op o k) (fun _ => nofun) h hd fun es _ => hall es

end System

/-- An invariant of the shared state, and what an agent knows of it, its view, which only its own
accesses change. A state may put an agent in danger. -/
structure Outline (S : System ι σ Op R α γ ε) (Λ : Type*) where
  inv : σ → Prop
  view : ι → σ → Λ
  idle : Λ
  danger : ι → σ → Prop
  not_danger : ∀ i s, view i s = idle → ¬ danger i s
  inv_env : ∀ e s, inv s → inv (S.env e s)
  view_env : ∀ e s i, view i (S.env e s) = view i s

namespace Outline

variable {S : System ι σ Op R α γ ε} (O : Outline S Λ)

/-- **The outline of a program**: it ends idle; each access is safe, leaves the views of the others,
and keeps the invariant if it meets the condition; if not, it leaves an agent that runs into an
unsafe access, itself or one in danger. -/
def Fine (i : ι) : Prog Op R α → Λ → Prop
  | .ret a, l => l = O.idle ∧ S.retOk a
  | .op o k, l => ∀ s, O.view i s = l →
      (O.danger i s → S.Doomed i (.op o k) s) ∧
      (O.inv s →
        S.safe i o s ∧ (∀ j, j ≠ i → O.view j (S.exec i o s).2 = O.view j s) ∧
        (S.ok i o s → O.inv (S.exec i o s).2 ∧
          Fine i (k (S.exec i o s).1) (O.view i (S.exec i o s).2)) ∧
        (¬ S.ok i o s → S.Doomed i (k (S.exec i o s).1) (S.exec i o s).2 ∨
          ∃ j, j ≠ i ∧ O.danger j (S.exec i o s).2))

/-- What the outline asks of an access at `s`. -/
abbrev Access (i : ι) (o : Op) (k : R → Prog Op R α) (s : σ) : Prop :=
  S.safe i o s ∧ (∀ j, j ≠ i → O.view j (S.exec i o s).2 = O.view j s) ∧
    (S.ok i o s → O.inv (S.exec i o s).2 ∧
      O.Fine i (k (S.exec i o s).1) (O.view i (S.exec i o s).2)) ∧
    (¬ S.ok i o s → S.Doomed i (k (S.exec i o s).1) (S.exec i o s).2 ∨
      ∃ j, j ≠ i ∧ O.danger j (S.exec i o s).2)

variable {O} in
theorem Fine.doomed {i : ι} {p : Prog Op R α} {l : Λ} (h : O.Fine i p l) {t : σ}
    (hview : O.view i t = l) (hdanger : O.danger i t) : S.Doomed i p t := by
  cases p with
  | ret a => exact absurd hdanger (O.not_danger i t (hview.trans h.1))
  | op o k => exact (h t hview).1 hdanger

/-- Every agent follows the outline. -/
structure Valid (s : Pool ι σ Op R α) : Prop where
  inv : O.inv s.shared
  fine : ∀ i, O.Fine i (s.agent i) (O.view i s.shared)

variable {O} {s : Pool ι σ Op R α}

theorem Valid.access (h : O.Valid s) {i : ι} {o : Op} {k : R → Prog Op R α}
    (hi : s.agent i = .op o k) : O.Access i o k s.shared := by
  have hfine := h.fine i
  rw [hi] at hfine
  exact (hfine s.shared rfl).2 h.inv

theorem Valid.doomed_of_danger (h : O.Valid s) {t : σ} {j : ι}
    (hview : O.view j t = O.view j s.shared) (hdanger : O.danger j t) :
    (∀ a, s.agent j ≠ .ret a) ∧ S.Doomed j (s.agent j) t := by
  refine ⟨fun a ha => ?_, (h.fine j).doomed hview hdanger⟩
  have hfine := h.fine j
  rw [ha] at hfine
  exact O.not_danger j t (hview.trans hfine.1) hdanger

open Interleave.System

theorem Valid.keeps (h : O.Valid s) (e : Event ι γ ε) (hok : S.Meets s e) : S.Keeps s e := by
  cases e with
  | call i c => trivial
  | env e => trivial
  | step i =>
    cases hi : s.agent i with
    | ret a =>
      rw [System.Keeps, hi]
      trivial
    | op o k =>
      obtain ⟨hsafe, _, hkeep, _⟩ := h.access hi
      obtain ⟨_, hfine⟩ := hkeep ((meets_step hi).mp hok)
      refine (keeps_step hi).mpr ⟨hsafe, fun a ha => ?_⟩
      rw [ha] at hfine
      exact hfine.2

variable [DecidableEq ι]

/-- **Step**: an event that meets the condition keeps the outline. -/
theorem Valid.next (hprog : ∀ i c, O.Fine i (S.prog c) O.idle) (h : O.Valid s) (e : Event ι γ ε)
    (hok : S.Meets s e) : O.Valid (S.next s e) := by
  cases e with
  | call i c =>
    cases hi : s.agent i with
    | ret a =>
      have hfine := h.fine i
      rw [hi] at hfine
      rw [System.next, hi]
      refine ⟨h.inv, (forall_update_iff _ fun j p => O.Fine j p (O.view j s.shared)).mpr
        ⟨?_, fun j _ => h.fine j⟩⟩
      rw [hfine.1]
      exact hprog i c
    | op o k =>
      rw [System.next, hi]
      exact h
  | step i =>
    cases hi : s.agent i with
    | ret a =>
      rw [System.next, hi]
      exact h
    | op o k =>
      obtain ⟨_, hothers, hkeep, _⟩ := h.access hi
      obtain ⟨hinv, hfine⟩ := hkeep ((meets_step hi).mp hok)
      rw [next_step hi]
      refine ⟨hinv, (forall_update_iff _ fun j p =>
        O.Fine j p (O.view j (S.exec i o s.shared).2)).mpr ⟨hfine, fun j hj => ?_⟩⟩
      rw [hothers j hj]
      exact h.fine j
  | env e =>
    refine ⟨O.inv_env e _ h.inv, fun j => ?_⟩
    change O.Fine j (s.agent j) (O.view j (S.env e s.shared))
    rw [O.view_env]
    exact h.fine j

theorem Valid.safe (hprog : ∀ i c, O.Fine i (S.prog c) O.idle) (h : O.Valid s) : S.Safe s :=
  fun _ hok => along_of_inv (fun _ e (ht : O.Valid _) he => ht.next hprog e he)
    (fun _ e ht he => ht.keeps e he) h hok

theorem Valid.not_safe_next (h : O.Valid s) (e : Event ι γ ε) (hbad : ¬ S.Meets s e) :
    ¬ (S.Keeps s e ∧ S.Safe (S.next s e)) := by
  cases e with
  | call i c => exact absurd trivial hbad
  | env e => exact absurd trivial hbad
  | step i =>
    cases hi : s.agent i with
    | ret a =>
      rw [System.Meets, hi] at hbad
      exact absurd trivial hbad
    | op o k =>
      rintro ⟨hkeeps, hsafe⟩
      obtain ⟨_, hothers, _, hdoom⟩ := h.access hi
      rw [keeps_step hi] at hkeeps
      rw [next_step hi] at hsafe
      rcases hdoom fun hok => hbad ((meets_step hi).mpr hok) with hself | ⟨j, hj, hdanger⟩
      · by_cases hret : ∃ a, k (S.exec i o s.shared).1 = .ret a
        · obtain ⟨a, ha⟩ := hret
          rw [ha] at hself
          exact hself (hkeeps.2 a ha)
        · exact not_safe_of_doomed (fun a ha => hret ⟨a, ha⟩) (update_self ..) hself
            hsafe
      · obtain ⟨hop, hd⟩ := h.doomed_of_danger (hothers j hj) hdanger
        exact not_safe_of_doomed hop (update_of_ne hj ..) hd hsafe

/-- **Exactness.** From an outlined state, a run is safe exactly when every access meets the
condition. -/
theorem along_iff (hprog : ∀ i c, O.Fine i (S.prog c) O.idle) (h : O.Valid s)
    (es : List (Event ι γ ε)) :
    Along S.next (fun s e => S.Keeps s e ∧ S.Safe (S.next s e)) s es ↔
      Along S.next S.Meets s es := by
  refine along_iff_along (fun _ _ => True) (fun t e (ht : O.Valid t) _ he => ht.next hprog e he)
    (fun t e ht _ => ⟨fun hsafe => ?_, fun he => ?_⟩) h
    (along_of_forall (q := fun _ => True) _ es fun _ _ => trivial)
  · by_contra hbad
    exact ht.not_safe_next e hbad hsafe
  · exact ⟨ht.keeps e he, (ht.next hprog e he).safe hprog⟩

end Outline

end Interleave
