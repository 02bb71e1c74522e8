import Ixgbe.Library.EventRun
import Mathlib.Data.Finset.Basic

/-! # Tracked allocations of the FreeBSD port

`ixgbe_vmalloc_tracked` and `ixgbe_vfree_tracked` (`ixgbe_oal.c`), by any number of threads. What
the mutex protects is one step. -/

namespace Ixgbe.Oal

open EventRun Function

inductive TrackCall
  | vmalloc (size : ℕ)
  | vfree (addr : ℕ)

/-- What is done under the mutex. -/
inductive TrackBody
  | insert (b : ℕ × ℕ)
  | remove (addr : ℕ)

/-- `check`, `init` and `set` are the lines of `vmalloc_init`. -/
inductive TrackPc
  | idle
  | check (c : TrackCall)
  | init (c : TrackCall)
  | set (c : TrackCall)
  | alloc (size : ℕ)
  | entry (b : ℕ × ℕ)
  | undo (b : ℕ × ℕ)
  | lock (c : TrackBody)
  | body (c : TrackBody)
  | unlock (found : Option (ℕ × ℕ))
  | release (b : ℕ × ℕ)

/-- `inits` counts `mtx_init`, `misuses` the uses of a mutex before it and the calls of `contigfree`
for what is not allocated. -/
structure Tracker (ι : Type) where
  pc : ι → TrackPc
  initialized : Bool
  inits : ℕ
  owner : Option ι
  list : List (ℕ × ℕ)
  live : Finset (ℕ × ℕ)
  misuses : ℕ

/-- A step comes with what an allocation in it returns. -/
inductive TrackEvent (ι : Type)
  | call (i : ι) (c : TrackCall)
  | step (i : ι) (got : Option ℕ)

def TrackCall.start : TrackCall → TrackPc
  | .vmalloc size => .alloc size
  | .vfree addr => .lock (.remove addr)

def TrackCall.enter : TrackCall → TrackPc
  | .vfree 0 => .idle
  | c => .check c

variable {ι : Type} [DecidableEq ι]

def Tracker.goto (s : Tracker ι) (i : ι) (pc : TrackPc) : Tracker ι :=
  { s with pc := update s.pc i pc }

def Tracker.contigfree (s : Tracker ι) (b : ℕ × ℕ) : Tracker ι :=
  { s with
    live := s.live.erase b
    misuses := if b ∈ s.live then s.misuses else s.misuses + 1 }

def trackStep (s : Tracker ι) : TrackEvent ι → Tracker ι
  | .call i c =>
    match s.pc i with
    | .idle => s.goto i c.enter
    | _ => s
  | .step i got =>
    match s.pc i with
    | .idle => s
    | .check c => s.goto i (if s.initialized then c.start else .init c)
    | .init c => { s.goto i (.set c) with inits := s.inits + 1, owner := none }
    | .set c => { s.goto i c.start with initialized := true }
    | .alloc size =>
      match got with
      | none => s.goto i .idle
      | some p => { s.goto i (.entry (p, size)) with live := insert (p, size) s.live }
    | .entry b => s.goto i (if got.isSome then .lock (.insert b) else .undo b)
    | .undo b => (s.goto i .idle).contigfree b
    | .lock c =>
      if s.inits = 0 then { s.goto i (.body c) with misuses := s.misuses + 1 }
      else if s.owner = none then { s.goto i (.body c) with owner := some i }
      else s
    | .body (.insert b) => { s.goto i (.unlock none) with list := b :: s.list }
    | .body (.remove addr) =>
      match s.list.find? fun b => b.1 = addr with
      | none => s.goto i (.unlock none)
      | some b => { s.goto i (.unlock (some b)) with list := s.list.erase b }
    | .unlock none => { s.goto i .idle with owner := none }
    | .unlock (some b) => { s.goto i (.release b) with owner := none }
    | .release b => (s.goto i .idle).contigfree b

def Tracker.start (ι : Type) : Tracker ι := ⟨fun _ => .idle, false, 0, none, [], ∅, 0⟩

/-- `contigmalloc` never returns a live address. -/
def TrackEvent.Legal (s : Tracker ι) : TrackEvent ι → Prop
  | .step i (some p) => ∀ size, s.pc i = .alloc size → ∀ b ∈ s.live, b.1 ≠ p
  | _ => True

/-- The mutex is initialised once and before use, `contigfree` called for live blocks, and between
the calls the list is these. -/
structure Tracker.Sound (s : Tracker ι) : Prop where
  inits : s.inits ≤ 1
  misuses : s.misuses = 0
  list : (∀ i, s.pc i = .idle) → s.owner = none → s.list.Nodup ∧ s.list.toFinset = s.live

/-- A thread that comes to `mtx_init` is the first one. -/
def TrackEvent.Ok (s : Tracker ι) : TrackEvent ι → Prop
  | .step i _ => ∀ c, s.pc i = .init c → s.inits = 0
  | _ => True

/-- The block that a thread has in its hands. -/
def TrackPc.held : TrackPc → Option (ℕ × ℕ)
  | .entry b | .undo b | .lock (.insert b) | .body (.insert b) | .unlock (some b) | .release b =>
    some b
  | _ => none

/-- `vmalloc_init` has called `mtx_init`, or found that it was called. -/
def TrackPc.past : TrackPc → Bool
  | .idle | .check _ | .init _ => false
  | _ => true

/-- Every live block is in the list or in the hands of one thread. -/
structure HeldBlocks (list : List (ℕ × ℕ)) (live : Finset (ℕ × ℕ)) (held : ι → Option (ℕ × ℕ)) :
    Prop where
  nodup : list.Nodup
  mem_live : ∀ b, b ∈ live ↔ b ∈ list ∨ ∃ i, held i = some b
  apart : ∀ i b, held i = some b → b ∉ list
  unique : ∀ i j b, held i = some b → held j = some b → i = j
  addr : ∀ b ∈ live, ∀ c ∈ live, b.1 = c.1 → b = c

namespace HeldBlocks

variable {list : List (ℕ × ℕ)} {live : Finset (ℕ × ℕ)} {held : ι → Option (ℕ × ℕ)} {i : ι}
  {b : ℕ × ℕ}

theorem exists_held_update (x : Option (ℕ × ℕ)) (c : ℕ × ℕ) :
    (∃ j, update held i x j = some c) ↔ x = some c ∨ ∃ j, j ≠ i ∧ held j = some c := by
  rw [exists_update_iff held fun _ y => y = some c]

section

variable (h : HeldBlocks list live held)

include h

theorem alloc (hnone : held i = none) (hfresh : ∀ c ∈ live, c.1 ≠ b.1) :
    HeldBlocks list (insert b live) (update held i (some b)) where
  nodup := h.nodup
  mem_live c := by
    rw [Finset.mem_insert, exists_held_update, h.mem_live]
    grind
  apart j c := by grind [h.apart, h.mem_live]
  unique j k c := by grind [h.unique, h.mem_live]
  addr c hc d hd := by grind [h.addr]

theorem insert (hheld : held i = some b) : HeldBlocks (b :: list) live (update held i none) where
  nodup := List.nodup_cons.mpr ⟨h.apart i b hheld, h.nodup⟩
  mem_live c := by
    rw [List.mem_cons, exists_held_update, h.mem_live]
    grind [h.unique]
  apart j c := by grind [h.apart, h.unique]
  unique j k c := by grind [h.unique]
  addr := h.addr

theorem remove (hnone : held i = none) (hb : b ∈ list) :
    HeldBlocks (list.erase b) live (update held i (some b)) where
  nodup := h.nodup.erase b
  mem_live c := by
    rw [h.nodup.mem_erase_iff, exists_held_update, h.mem_live]
    grind
  apart j c := by grind [h.apart, h.nodup.mem_erase_iff]
  unique j k c := by grind [h.unique, h.apart]
  addr := h.addr

theorem free (hheld : held i = some b) : HeldBlocks list (live.erase b) (update held i none) where
  nodup := h.nodup
  mem_live c := by
    rw [Finset.mem_erase, exists_held_update, h.mem_live]
    grind [h.unique, h.apart]
  apart j c := by grind [h.apart]
  unique j k c := by grind [h.unique]
  addr c hc d hd := by grind [h.addr]

end

end HeldBlocks

structure Tracker.Inv (s : Tracker ι) : Prop where
  inits : s.inits ≤ 1
  initialized : s.initialized = true → s.inits = 1
  past : ∀ i, (s.pc i).past = true → s.inits = 1
  misuses : s.misuses = 0
  blocks : HeldBlocks s.list s.live fun i => (s.pc i).held

namespace Tracker

variable {s : Tracker ι} {i : ι} {pc : TrackPc}

theorem held_update (s : Tracker ι) (i : ι) (pc : TrackPc) :
    (fun j => (update s.pc i pc j).held) = update (fun j => (s.pc j).held) i pc.held := by
  funext j
  exact apply_update (fun _ => TrackPc.held) s.pc i pc j

theorem Inv.past_update (h : s.Inv) (hpc : pc.past = true → s.inits = 1) :
    ∀ j, (update s.pc i pc j).past = true → s.inits = 1 :=
  (forall_update_iff s.pc fun _ pc => pc.past = true → s.inits = 1).mpr ⟨hpc, fun j _ => h.past j⟩

theorem Inv.blocks_goto (h : s.Inv) (hheld : pc.held = (s.pc i).held) :
    HeldBlocks s.list s.live fun j => (update s.pc i pc j).held := by
  rw [held_update, hheld, update_eq_self]
  exact h.blocks

/-- A step that neither moves a block nor calls `mtx_init`. -/
theorem Inv.goto (h : s.Inv) (hheld : pc.held = (s.pc i).held)
    (hpast : pc.past = true → s.inits = 1) : (s.goto i pc).Inv :=
  ⟨h.inits, h.initialized, h.past_update hpast, h.misuses, h.blocks_goto hheld⟩

/-- A step that moves a block. -/
theorem Inv.move (h : s.Inv) (hpast : (s.pc i).past = true) {list : List (ℕ × ℕ)}
    {live : Finset (ℕ × ℕ)}
    (hblocks : HeldBlocks list live (update (fun j => (s.pc j).held) i pc.held)) :
    Inv { s.goto i pc with list, live } :=
  ⟨h.inits, h.initialized, h.past_update fun _ => h.past i hpast, h.misuses,
    (held_update s i pc).symm ▸ hblocks⟩

theorem Inv.contigfree (h : s.Inv) {b : ℕ × ℕ} (hpast : (s.pc i).past = true)
    (hheld : (s.pc i).held = some b) : ((s.goto i .idle).contigfree b).Inv := by
  have hlive : b ∈ s.live := (h.blocks.mem_live b).mpr (.inr ⟨i, hheld⟩)
  have hmove : Inv { s.goto i .idle with list := s.list, live := s.live.erase b } :=
    h.move hpast (h.blocks.free hheld)
  exact { hmove with misuses := (if_pos hlive).trans h.misuses }

theorem Inv.step (h : s.Inv) (e : TrackEvent ι) (hl : e.Legal s) (hok : e.Ok s) :
    (trackStep s e).Inv := by
  cases e with
  | call i c =>
    have henter : c.enter.held = none ∧ c.enter.past = false := by
      unfold TrackCall.enter
      split <;> exact ⟨rfl, rfl⟩
    cases hpc : s.pc i <;> simp only [trackStep, hpc]
    case idle => exact h.goto (by rw [hpc, henter.1]; rfl) fun hp => by simp [henter.2] at hp
    all_goals exact h
  | step i got =>
    have hpast := h.past i
    cases hpc : s.pc i <;> rw [hpc] at hpast <;> simp only [trackStep, hpc]
    case idle => exact h
    case check c =>
      split
      · rename_i hinit
        exact h.goto (by rw [hpc]; cases c <;> rfl) fun _ => h.initialized hinit
      · exact h.goto (by rw [hpc]; rfl) nofun
    case init c =>
      have h0 := hok c hpc
      exact ⟨h0 ▸ le_rfl, fun _ => congrArg (· + 1) h0, fun _ _ => congrArg (· + 1) h0, h.misuses,
        h.blocks_goto (by rw [hpc]; rfl)⟩
    case set c =>
      have hgoto : (s.goto i c.start).Inv :=
        h.goto (by rw [hpc]; cases c <;> rfl) fun _ => hpast rfl
      exact { hgoto with initialized := fun _ => hpast rfl }
    case alloc size =>
      split
      · exact h.goto (by rw [hpc]; rfl) nofun
      · rename_i p
        exact h.move (by rw [hpc]; rfl) (h.blocks.alloc (by rw [hpc]; rfl) (hl size hpc))
    case entry b =>
      split
      · exact h.goto (by rw [hpc]; rfl) fun _ => hpast rfl
      · exact h.goto (by rw [hpc]; rfl) fun _ => hpast rfl
    case undo b => exact h.contigfree (by rw [hpc]; rfl) (by rw [hpc]; rfl)
    case lock c =>
      have hgoto : (s.goto i (.body c)).Inv :=
        h.goto (by rw [hpc]; cases c <;> rfl) fun _ => hpast rfl
      split_ifs with h0 howner
      · exact absurd (h0.symm.trans (hpast rfl)) (by decide)
      · exact { hgoto with }
      · exact h
    case body c =>
      cases c with
      | insert b => exact h.move (by rw [hpc]; rfl) (h.blocks.insert (by rw [hpc]; rfl))
      | remove addr =>
        dsimp only
        split
        · exact h.goto (by rw [hpc]; rfl) fun _ => hpast rfl
        · rename_i b hfind
          exact h.move (by rw [hpc]; rfl)
            (h.blocks.remove (by rw [hpc]; rfl) (List.mem_of_find?_eq_some hfind))
    case unlock found =>
      cases found with
      | none =>
        have hgoto : (s.goto i .idle).Inv := h.goto (by rw [hpc]; rfl) nofun
        exact { hgoto with }
      | some b =>
        have hgoto : (s.goto i (.release b)).Inv := h.goto (by rw [hpc]; rfl) fun _ => hpast rfl
        exact { hgoto with }
    case release b => exact h.contigfree (by rw [hpc]; rfl) (by rw [hpc]; rfl)

omit [DecidableEq ι] in
theorem Inv.sound (h : s.Inv) : s.Sound where
  inits := h.inits
  misuses := h.misuses
  list hidle _ := by
    refine ⟨h.blocks.nodup, Finset.ext fun b => ?_⟩
    rw [List.mem_toFinset, h.blocks.mem_live]
    simp [hidle, TrackPc.held]

end Tracker

/-- **Tracked allocations are sound along a run iff no thread comes to `mtx_init` after another.**
-/
theorem trackedAlloc_sound_iff (es : List (TrackEvent ι))
    (hl : Along trackStep (fun s e => e.Legal s) (Tracker.start ι) es) :
    After trackStep Tracker.Sound (Tracker.start ι) es ↔
      Along trackStep (fun s e => e.Ok s) (Tracker.start ι) es := by
  have hstart : (Tracker.start ι).Inv :=
    ⟨Nat.zero_le 1, nofun, nofun, rfl, List.nodup_nil, by simp [Tracker.start, TrackPc.held], nofun,
      nofun, by simp [Tracker.start]⟩
  refine after_iff_along _ (fun s e h hl hok => h.step e hl hok) (fun s h => h.sound)
    (fun s e h _ hbad hsound => ?_) hstart hl
  cases e with
  | call i c => exact hbad trivial
  | step i got =>
    obtain ⟨c, hc⟩ := not_forall.mp hbad
    obtain ⟨hpc, h0⟩ := Classical.not_imp.mp hc
    have hle := hsound.inits
    simp only [trackStep, hpc] at hle
    omega

/-- The first call of a thread, up to its block. -/
def firstVmalloc : List (TrackEvent (Fin 2)) :=
  [.call 0 (.vmalloc 64), .step 0 none, .step 0 none, .step 0 none, .step 0 (some 4096)]

theorem trackedAlloc_sound_first :
    Along trackStep (fun s e => e.Legal s) (Tracker.start (Fin 2)) firstVmalloc ∧
      After trackStep Tracker.Sound (Tracker.start (Fin 2)) firstVmalloc := by
  have hlegal : Along trackStep (fun s e => e.Legal s) (Tracker.start (Fin 2)) firstVmalloc :=
    ⟨trivial, trivial, trivial, trivial, fun _ _ _ hb => absurd hb (Finset.notMem_empty _), trivial⟩
  exact ⟨hlegal, (trackedAlloc_sound_iff _ hlegal).mpr
    ⟨trivial, nofun, fun _ _ => rfl, nofun, nofun, trivial⟩⟩

/-- Two threads find the mutex not initialised, and both initialise it. -/
theorem trackedAlloc_two_inits : ∃ es : List (TrackEvent (Fin 2)),
    Along trackStep (fun s e => e.Legal s) (Tracker.start (Fin 2)) es ∧
      (run trackStep (Tracker.start (Fin 2)) es).inits = 2 ∧
      ¬ After trackStep Tracker.Sound (Tracker.start (Fin 2)) es :=
  ⟨[.call 0 (.vmalloc 64), .call 1 (.vmalloc 64), .step 0 none, .step 1 none, .step 0 none,
    .step 1 none], ⟨trivial, trivial, trivial, trivial, trivial, trivial, trivial⟩, rfl,
    fun h => absurd h.2.2.2.2.2.1.inits (by decide)⟩

end Ixgbe.Oal
