import Ixgbe.Mac.Table

/-! # Sequences of table operations

`MacSteps`: any sequence of adds, deletes and rewrites on some pools. -/

namespace Ixgbe

open Multiset

/-- One operation on the table, for a pool of `P`. -/
inductive MacStep (cfg : RarCfg) (P : ℕ → Prop) (t : MacFilter) : MacFilter → Prop
  | add (addr : MacAddr) (pool : ℕ) (h : P pool) : MacStep cfg P t (addMacFilter cfg t addr pool).2
  | del (addr : MacAddr) (pool : ℕ) (h : P pool) : MacStep cfg P t (delMacFilter cfg t addr pool).2
  | sync : MacStep cfg P t (fullSyncMacTable cfg t)

/-- A sequence of operations, for pools of `P`. -/
abbrev MacSteps (cfg : RarCfg) (P : ℕ → Prop) : MacFilter → MacFilter → Prop :=
  Relation.ReflTransGen (MacStep cfg P)

section

variable {cfg : RarCfg} {P Q : ℕ → Prop} {t t' : MacFilter}

theorem MacSteps.mono (h : MacSteps cfg P t t') (hPQ : ∀ p, P p → Q p) : MacSteps cfg Q t t' := by
  refine Relation.ReflTransGen.mono (fun t t' hs => ?_) _ _ h
  cases hs with
  | add addr pool hp => exact .add addr pool (hPQ pool hp)
  | del addr pool hp => exact .del addr pool (hPQ pool hp)
  | sync => exact .sync

def SameEntry (e e' : MacEntry) : Prop := e' = e ∨ e' = e.synced

theorem SameEntry.trans {e e' e'' : MacEntry} (h : SameEntry e e') (h' : SameEntry e' e'') :
    SameEntry e e'' := by
  rcases h with rfl | rfl
  · exact h'
  · rcases h' with rfl | rfl
    · exact .inr rfl
    · exact .inr rfl

theorem SameEntry.inUse {e e' : MacEntry} (h : SameEntry e e') : e'.inUse = e.inUse := by
  rcases h with rfl | rfl <;> rfl

theorem SameEntry.pool {e e' : MacEntry} (h : SameEntry e e') : e'.pool = e.pool := by
  rcases h with rfl | rfl <;> rfl

theorem MacStep.sameEntry (h : MacStep cfg P t t') {w : ℕ} (hw : ¬ P w) {i : ℕ}
    (huse : (t.entries i).inUse = true) (hpool : (t.entries i).pool = w) :
    SameEntry (t.entries i) (t'.entries i) := by
  cases h with
  | add addr pool hp =>
    have hstep := addMacFilter_step cfg t addr pool
    generalize addMacFilter cfg t addr pool = r at hstep ⊢
    obtain ⟨r, t'⟩ := r
    generalize t'.entries = g at hstep ⊢
    cases hstep with
    | zero _ => exact .inl rfl
    | full _ _ => exact .inl rfl
    | added j _ _ _ hfree _ hother =>
      refine hother i fun hij => ?_
      rw [hij, hfree] at huse
      exact absurd huse (by decide)
  | del addr pool hp =>
    have hstep := delMacFilter_step cfg t addr pool
    generalize delMacFilter cfg t addr pool = r at hstep ⊢
    obtain ⟨r, t'⟩ := r
    dsimp only at hstep ⊢
    generalize t'.entries = g at hstep ⊢
    cases hstep with
    | zero _ => exact .inl rfl
    | absent _ _ => exact .inl rfl
    | deleted j _ _ _ _ hjpool _ _ hother =>
      refine hother i fun hij => hw ?_
      rw [← hpool, hij, hjpool]
      exact hp
  | sync =>
    rw [fullSyncMacTable_entries]
    by_cases hi : i < cfg.numRarEntries
    · exact .inr (if_pos hi)
    · exact .inl (if_neg hi)

theorem MacSteps.sameEntry (h : MacSteps cfg P t t') {w : ℕ} (hw : ¬ P w) {i : ℕ}
    (huse : (t.entries i).inUse = true) (hpool : (t.entries i).pool = w) :
    SameEntry (t.entries i) (t'.entries i) := by
  induction h with
  | refl => exact .inl rfl
  | tail _ hs ih => exact ih.trans (hs.sameEntry hw (ih.inUse.trans huse) (ih.pool.trans hpool))

theorem MacStep.count_filters (h : MacStep cfg P t t') {w : ℕ} (hw : ¬ P w) (addr : MacAddr) :
    (t'.filters cfg).count (addr, w) = (t.filters cfg).count (addr, w) := by
  cases h with
  | add x pool hp =>
    have hne : (addr, w) ≠ (x, pool) := fun h => hw ((Prod.mk.inj h).2 ▸ hp)
    rcases addMacFilter_cases cfg t x pool with ⟨-, hsame, -⟩ | ⟨-, -, -, hcons⟩
    · rw [hsame]
    · rw [hcons, count_cons_of_ne hne]
  | del x pool hp =>
    have hne : (addr, w) ≠ (x, pool) := fun h => hw ((Prod.mk.inj h).2 ▸ hp)
    by_cases hx : x = 0
    · rw [hx, delMacFilter_zero]
    · rw [delMacFilter_filters hx, count_erase_of_ne hne]
  | sync => rw [fullSyncMacTable_filters]

theorem MacSteps.count_filters (h : MacSteps cfg P t t') {w : ℕ} (hw : ¬ P w) (addr : MacAddr) :
    (t'.filters cfg).count (addr, w) = (t.filters cfg).count (addr, w) := by
  induction h with
  | refl => rfl
  | tail _ hs ih => rw [hs.count_filters hw, ih]

theorem MacSteps.mem_filters_iff (h : MacSteps cfg P t t') {w : ℕ} (hw : ¬ P w) (addr : MacAddr) :
    (addr, w) ∈ t'.filters cfg ↔ (addr, w) ∈ t.filters cfg := by
  rw [← count_pos, h.count_filters hw, count_pos]

end

end Ixgbe
