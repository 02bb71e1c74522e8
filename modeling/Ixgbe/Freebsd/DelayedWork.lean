import Ixgbe.Library.EventRun

/-! # Delayed work of the FreeBSD port

A callout queues a task, which runs the function (`ixgbe_oal.c`). A cancel waits for the two
separately. -/

namespace Ixgbe

open EventRun

/-- Before or after its only call. -/
inductive CalloutHandler
  | idle
  | entered
  | enqueued
  deriving DecidableEq, Repr

/-- It is `stopped` between the two calls of a schedule of its own. -/
inductive WorkFunction
  | idle
  | running
  | stopped
  deriving DecidableEq, Repr

/-- Where `ixgbe_cancel_delayed_work_sync` is. -/
inductive CancelPhase
  | idle
  | drainCallout
  | drainTask
  | returned
  deriving DecidableEq, Repr

/-- `stopped` are the threads between the two calls of a schedule. -/
structure DelayedWork (ι : Type) where
  pending : Bool
  handler : CalloutHandler
  queued : Bool
  function : WorkFunction
  stopped : ι → Bool
  cancel : CancelPhase

inductive WorkEvent (ι : Type)
  | schedule (i : ι) (delay : ℕ)
  | enqueue (i : ι)
  | reschedule (delay : ℕ)
  | reenqueue
  | finish
  | expire
  | handlerEnqueue
  | handlerReturn
  | start
  /-- It is entered, and a wait of it is over. -/
  | cancel
  | drained

def CancelPhase.anew : CancelPhase → CancelPhase
  | .returned => .idle
  | c => c

namespace DelayedWork

variable {ι : Type}

section

variable (s : DelayedWork ι)

/-- It does not wait for a handler that runs. -/
def calloutStop : DelayedWork ι := { s with pending := false }

def calloutReset : DelayedWork ι := { s with pending := true }

/-- A task on the queue is there once. -/
def enqueueTask : DelayedWork ι := { s with queued := true }

def TaskIdle : Prop := s.queued = false ∧ s.function = .idle

end

instance (s : DelayedWork ι) : Decidable s.TaskIdle :=
  inferInstanceAs (Decidable (s.queued = false ∧ s.function = .idle))

def step [DecidableEq ι] (s : DelayedWork ι) : WorkEvent ι → DelayedWork ι
  | .schedule i delay =>
    if s.stopped i = true then s
    else if delay = 0 then { s.calloutStop with stopped := Function.update s.stopped i true }
    else { s.calloutReset with cancel := s.cancel.anew }
  | .enqueue i =>
    if s.stopped i = true then
      { s.enqueueTask with
        stopped := Function.update s.stopped i false
        cancel := s.cancel.anew }
    else s
  | .reschedule delay =>
    if s.function = .running then
      if delay = 0 then { s.calloutStop with function := .stopped } else s.calloutReset
    else s
  | .reenqueue =>
    if s.function = .stopped then { s.enqueueTask with function := .running } else s
  | .finish => if s.function = .running then { s with function := .idle } else s
  | .expire =>
    if s.pending = true ∧ s.handler = .idle then { s with pending := false, handler := .entered }
    else s
  | .handlerEnqueue =>
    if s.handler = .entered then { s.enqueueTask with handler := .enqueued } else s
  | .handlerReturn => if s.handler = .enqueued then { s with handler := .idle } else s
  | .start =>
    if s.queued = true ∧ s.function = .idle then { s with queued := false, function := .running }
    else s
  | .cancel =>
    if s.cancel = .idle ∨ s.cancel = .returned then
      { s.calloutStop with cancel := .drainCallout }
    else s
  | .drained =>
    match s.cancel with
    -- `callout_drain` looks again after it has waited for the handler
    | .drainCallout =>
      if s.handler = .idle then { s.calloutStop with cancel := .drainTask } else s
    | .drainTask => if s.TaskIdle then { s with cancel := .returned } else s
    | _ => s

end DelayedWork

def WorkEvent.schedules {ι : Type} : WorkEvent ι → Prop
  | .schedule _ _ => True
  | .enqueue _ => True
  | _ => False

namespace DelayedWork

variable {ι : Type} [DecidableEq ι]

section

variable (s : DelayedWork ι)

/-- **The function is not running, and does not run before a thread schedules it.** -/
def Quiet : Prop :=
  s.function = .idle ∧ ∀ es : List (WorkEvent ι), (∀ e ∈ es, ¬ e.schedules) →
    After step (fun t => t.function = .idle) s es

def Cancels : Prop := s.cancel = .returned → s.Quiet

/-- No thread schedules the work while the cancellation is under way. -/
def Undisturbed (e : WorkEvent ι) : Prop :=
  e.schedules → s.cancel ≠ .drainCallout ∧ s.cancel ≠ .drainTask

def Settled : Prop := s.pending = false ∧ s.handler ≠ .entered

/-- When `taskqueue_drain` returns, the callout is settled. -/
def ReturnOk (e : WorkEvent ι) : Prop :=
  e = .drained → s.cancel = .drainTask → s.TaskIdle → s.Settled

end

structure Still (s : DelayedWork ι) : Prop where
  settled : s.Settled
  taskIdle : s.TaskIdle

variable {s : DelayedWork ι}

theorem not_returned_anew (c : CancelPhase) : c.anew ≠ .returned := by
  cases c <;> decide

variable {e : WorkEvent ι}

theorem Still.step (h : Still s) (he : ¬ e.schedules) : Still (s.step e) := by
  have hrunning : s.function ≠ .running := fun hc => nomatch h.taskIdle.2.symm.trans hc
  have hstopped : s.function ≠ .stopped := fun hc => nomatch h.taskIdle.2.symm.trans hc
  have hpending : s.pending ≠ true := fun hc => nomatch h.settled.1.symm.trans hc
  have hqueued : s.queued ≠ true := fun hc => nomatch h.taskIdle.1.symm.trans hc
  cases e with
  | schedule i delay => exact absurd trivial he
  | enqueue i => exact absurd trivial he
  | reschedule delay =>
    rw [DelayedWork.step, if_neg hrunning]
    exact h
  | reenqueue =>
    rw [DelayedWork.step, if_neg hstopped]
    exact h
  | finish =>
    rw [DelayedWork.step, if_neg hrunning]
    exact h
  | expire =>
    rw [DelayedWork.step, if_neg fun hc => hpending hc.1]
    exact h
  | handlerEnqueue =>
    rw [DelayedWork.step, if_neg h.settled.2]
    exact h
  | handlerReturn =>
    rw [DelayedWork.step]
    split
    · exact ⟨⟨h.settled.1, nofun⟩, h.taskIdle⟩
    · exact h
  | start =>
    rw [DelayedWork.step, if_neg fun hc => hqueued hc.1]
    exact h
  | cancel =>
    rw [DelayedWork.step]
    split
    · exact ⟨⟨rfl, h.settled.2⟩, h.taskIdle⟩
    · exact h
  | drained =>
    rw [DelayedWork.step]
    cases s.cancel with
    | idle => exact h
    | returned => exact h
    | drainCallout =>
      by_cases hh : s.handler = .idle
      · rw [if_pos hh]
        exact ⟨⟨rfl, h.settled.2⟩, h.taskIdle⟩
      · rw [if_neg hh]
        exact h
    | drainTask =>
      rw [if_pos h.taskIdle]
      exact ⟨h.settled, h.taskIdle⟩

theorem Still.quiet (h : Still s) : s.Quiet :=
  ⟨h.taskIdle.2, fun es hes =>
    after_of_inv (fun _ _ (ht : Still _) he => ht.step he) (fun _ ht => ht.taskIdle.2) h
      (along_of_forall _ es hes)⟩

/-- An event changes it only if it schedules the work, enters the cancellation or ends a wait. -/
theorem step_cancel (s : DelayedWork ι) (e : WorkEvent ι) :
    (s.step e).cancel = s.cancel ∨ (s.step e).cancel = s.cancel.anew ∨
      (s.step e).cancel = .drainCallout ∨
      (e = .drained ∧ s.cancel = .drainCallout ∧ s.handler = .idle ∧
        (s.step e).cancel = .drainTask) ∨
      (e = .drained ∧ s.cancel = .drainTask ∧ s.TaskIdle ∧ (s.step e).cancel = .returned) := by
  cases e with
  | schedule i delay =>
    rw [DelayedWork.step]
    split_ifs
    · exact .inl rfl
    · exact .inl rfl
    · exact .inr (.inl rfl)
  | enqueue i =>
    rw [DelayedWork.step]
    split_ifs
    · exact .inr (.inl rfl)
    · exact .inl rfl
  | cancel =>
    rw [DelayedWork.step]
    split_ifs
    · exact .inr (.inr (.inl rfl))
    · exact .inl rfl
  | drained =>
    rw [DelayedWork.step]
    cases hc : s.cancel with
    | idle => exact .inl hc
    | returned => exact .inl hc
    | drainCallout =>
      dsimp only
      split_ifs with hh
      · exact .inr (.inr (.inr (.inl ⟨rfl, rfl, hh, rfl⟩)))
      · exact .inl hc
    | drainTask =>
      dsimp only
      split_ifs with hidle
      · exact .inr (.inr (.inr (.inr ⟨rfl, rfl, hidle, rfl⟩)))
      · exact .inl hc
  | _ =>
    rw [DelayedWork.step]
    split_ifs <;> exact .inl rfl

theorem Still.step_of_returned (h : Still s)
    (hret : (s.step e).cancel = .returned) : Still (s.step e) := by
  by_cases he : e.schedules
  · cases e with
    | schedule i delay =>
      rw [DelayedWork.step] at hret ⊢
      split_ifs at hret ⊢
      · exact h
      · exact ⟨⟨rfl, h.settled.2⟩, h.taskIdle⟩
      · exact absurd hret (not_returned_anew _)
    | enqueue i =>
      rw [DelayedWork.step] at hret ⊢
      split_ifs at hret ⊢
      · exact absurd hret (not_returned_anew _)
      · exact h
    | _ => exact absurd he id
  · exact h.step he

theorem step_drained (hc : s.cancel = .drainTask) (hidle : s.TaskIdle) :
    s.step .drained = { s with cancel := .returned } := by
  rw [DelayedWork.step, hc]
  exact if_pos hidle

theorem not_quiet_of_not_settled (hidle : s.TaskIdle) (h : ¬ s.Settled) : ¬ s.Quiet := by
  intro hquiet
  obtain ⟨-, -, -, -, hend, -⟩ := hquiet.2
    [.handlerEnqueue, .handlerReturn, .expire, .handlerEnqueue, .start] (by
      simp [WorkEvent.schedules])
  obtain ⟨pending, handler, queued, function, stopped, cancel⟩ := s
  obtain ⟨rfl, rfl⟩ : queued = false ∧ function = .idle := hidle
  cases handler with
  | entered => cases pending <;> exact nomatch hend
  | idle =>
    cases pending with
    | false => exact h ⟨rfl, nofun⟩
    | true => exact nomatch hend
  | enqueued =>
    cases pending with
    | false => exact h ⟨rfl, nofun⟩
    | true => exact nomatch hend

/-- Nothing is left of the work once the cancellation has returned. -/
def StillReturned (s : DelayedWork ι) : Prop := s.cancel = .returned → Still s

theorem StillReturned.step (h : s.StillReturned) (hok : s.ReturnOk e) :
    (s.step e).StillReturned := by
  intro hret
  rcases step_cancel s e with hc | hc | hc | ⟨-, -, -, hc⟩ | ⟨rfl, hc, hidle, -⟩
  · exact (h (hc.symm.trans hret)).step_of_returned hret
  · exact absurd (hc.symm.trans hret) (not_returned_anew _)
  · exact nomatch hc.symm.trans hret
  · exact nomatch hc.symm.trans hret
  · rw [step_drained hc hidle]
    exact ⟨hok rfl hc hidle, hidle⟩

theorem not_cancels_step (hbad : ¬ s.ReturnOk e) : ¬ (s.step e).Cancels := by
  rw [ReturnOk] at hbad
  push Not at hbad
  obtain ⟨rfl, hc, hidle, hsettled⟩ := hbad
  rw [step_drained hc hidle]
  exact fun hcancels => not_quiet_of_not_settled
    (s := { s with cancel := .returned }) hidle hsettled
    (hcancels rfl)

/-- The function does not arm the callout during the second wait of the cancellation. -/
def NoRearm (s : DelayedWork ι) (e : WorkEvent ι) : Prop :=
  ∀ delay, e = .reschedule delay → delay ≠ 0 → s.cancel ≠ .drainTask

theorem Settled.step (h : s.Settled) (he : ¬ e.schedules)
    (hrearm : ∀ delay, e = .reschedule delay → delay = 0) : (s.step e).Settled := by
  obtain ⟨hpending, hhandler⟩ := h
  cases e with
  | schedule i delay => exact absurd trivial he
  | enqueue i => exact absurd trivial he
  | reschedule delay =>
    rw [DelayedWork.step, if_pos (hrearm delay rfl)]
    split_ifs
    · exact ⟨rfl, hhandler⟩
    · exact ⟨hpending, hhandler⟩
  | expire =>
    have hexpire : ¬ (s.pending = true ∧ s.handler = .idle) := fun hc =>
      nomatch hpending.symm.trans hc.1
    rw [DelayedWork.step, if_neg hexpire]
    exact ⟨hpending, hhandler⟩
  | handlerEnqueue =>
    rw [DelayedWork.step, if_neg hhandler]
    exact ⟨hpending, hhandler⟩
  | handlerReturn =>
    rw [DelayedWork.step]
    split_ifs
    · exact ⟨hpending, nofun⟩
    · exact ⟨hpending, hhandler⟩
  | drained =>
    rw [DelayedWork.step]
    cases s.cancel with
    | idle => exact ⟨hpending, hhandler⟩
    | returned => exact ⟨hpending, hhandler⟩
    | drainCallout =>
      dsimp only
      split_ifs
      · exact ⟨rfl, hhandler⟩
      · exact ⟨hpending, hhandler⟩
    | drainTask =>
      split_ifs <;> exact ⟨hpending, hhandler⟩
  | _ =>
    rw [DelayedWork.step]
    split_ifs <;> first | exact ⟨hpending, hhandler⟩ | exact ⟨rfl, hhandler⟩

def SettledWait (s : DelayedWork ι) : Prop := s.cancel = .drainTask → s.Settled

theorem SettledWait.step (h : s.SettledWait) (hundisturbed : s.Undisturbed e)
    (hrearm : s.NoRearm e) : (s.step e).SettledWait := by
  intro hret
  have hkept : s.cancel = .drainTask → (s.step e).Settled := fun hs =>
    (h hs).step (fun he => (hundisturbed he).2 hs) fun delay he => by
      by_contra hd
      exact hrearm delay he hd hs
  rcases step_cancel s e with hc | hc | hc | ⟨rfl, hc, hhandler, -⟩ | ⟨-, -, -, hc⟩
  · exact hkept (hc.symm.trans hret)
  · refine hkept ?_
    rw [hret] at hc
    cases hs : s.cancel <;> rw [hs] at hc <;> first | rfl | exact nomatch hc
  · exact nomatch hc.symm.trans hret
  · rw [DelayedWork.step, hc]
    rw [if_pos hhandler]
    exact ⟨rfl, fun hh => nomatch hhandler.symm.trans hh⟩
  · exact nomatch hc.symm.trans hret

end DelayedWork

open DelayedWork

section

variable {ι : Type} [DecidableEq ι] {s : DelayedWork ι} {es : List (WorkEvent ι)}

/-- **The synchronous cancellation cancels** exactly when at each return of `taskqueue_drain` the
callout is neither armed nor on its way. -/
theorem cancel_sync_iff (hs : s.cancel ≠ .returned) :
    After step Cancels s es ↔ Along step ReturnOk s es :=
  after_iff_along (fun _ _ => True)
    (fun _ _ (h : StillReturned _) _ hok => h.step hok) (fun _ h hret => (h hret).quiet)
    (fun _ _ _ _ hbad => not_cancels_step hbad) (fun hc => absurd hc hs)
    (along_of_forall (q := fun _ => True) s es fun _ _ => trivial)

/-- **The condition is met** if nobody schedules meanwhile and the function does not arm the callout
in the second wait. -/
theorem settled_of_no_rearm (hs : s.cancel ≠ .drainTask)
    (hundisturbed : Along step Undisturbed s es)
    (hrearm : Along step NoRearm s es) : Along step ReturnOk s es := by
  refine along_of_inv (fun t e (h : SettledWait t) hok => ?_) (fun t e h _ _ hc _ => h hc)
    (fun hc => absurd hc hs) ((along_and s es).mpr ⟨hundisturbed, hrearm⟩)
  exact h.step hok.1 hok.2

end

def idleWork : DelayedWork Unit := ⟨false, .idle, false, .idle, fun _ => false, .idle⟩

theorem cancel_sync_before_expiry : After step Cancels idleWork
    [.schedule () 5, .cancel, .drained, .drained, .expire, .start] := by
  refine (cancel_sync_iff (by decide)).mpr ?_
  refine ⟨?_, ?_, ?_, ?_, ?_, ?_, trivial⟩ <;> intro h
  · exact nomatch h
  · exact nomatch h
  · exact nofun
  · exact fun _ _ => ⟨rfl, nofun⟩
  · exact nomatch h
  · exact nomatch h

/-- It arms the callout between the two waits, and runs again. -/
theorem cancel_sync_runs_again :
    let es : List (WorkEvent Unit) := [.schedule () 0, .enqueue (), .start, .cancel, .drained,
      .reschedule 5, .finish, .drained]
    Along step Undisturbed idleWork es ∧ ¬ After step Cancels idleWork es ∧
      (run step idleWork es).cancel = .returned ∧
      (run step idleWork (es ++ [.expire, .handlerEnqueue, .start])).cancel = .returned ∧
      (run step idleWork (es ++ [.expire, .handlerEnqueue, .start])).function = .running := by
  refine ⟨?_, fun h => ?_, rfl, rfl, rfl⟩
  · refine ⟨?_, ?_, ?_, ?_, ?_, ?_, ?_, ?_, trivial⟩ <;> intro h <;>
      first | exact absurd h id | exact ⟨nofun, nofun⟩
  · obtain ⟨-, -, -, -, -, -, -, h, -⟩ := h
    obtain ⟨-, -, hend, -⟩ := (h rfl).2 [.expire, .handlerEnqueue, .start] (by
      simp [WorkEvent.schedules])
    exact nomatch hend

end Ixgbe
