import Ixgbe.Fdir.ClsEffects
import Ixgbe.Fdir.SortedMap

/-! # Bookkeeping of links

A child table should have recorded exactly the rules installed through it. The calls keep that
except by `ClsEvent.Breaks`. -/

namespace Ixgbe

open EventRun ClsState List

/-- A delete has an outcome of the erase command for each location. -/
inductive ClsCall
  | configure (o : FdirOutcome) (k : Knode)
  | delete (erase : ℕ → Bool) (handle : U32)
  | addHnode (handle : U32) (divisor : ℕ)
  | delHnode (handle : U32)

structure ClsEvent where
  config : ClsConfig
  call : ClsCall

section

variable (s : ClsState) (e : ClsEvent)

def clsStep : ClsState :=
  match e.call with
  | .configure o k => (configureClsu32 e.config o s k).1
  | .delete erase handle => (deleteClsu32 e.config.running erase s handle).1
  | .addHnode handle divisor => (addHnode s handle divisor).1
  | .delHnode handle => (delHnode s handle).1

@[simp] theorem clsStep_delete (c : ClsConfig) (erase : ℕ → Bool) (handle : U32) :
    clsStep s ⟨c, .delete erase handle⟩ = (deleteClsu32 c.running erase s handle).1 := rfl

@[simp] theorem clsStep_addHnode (c : ClsConfig) (handle : U32) (divisor : ℕ) :
    clsStep s ⟨c, .addHnode handle divisor⟩ = (addHnode s handle divisor).1 := rfl

@[simp] theorem clsStep_delHnode (c : ClsConfig) (handle : U32) :
    clsStep s ⟨c, .delHnode handle⟩ = (delHnode s handle).1 := rfl

def ClsEvent.Legal : Prop :=
  match e.call with
  | .configure _ k => 1 ≤ handleLoc k.handle ∧ handleLoc k.handle ≤ maxHwEntries
  | .delete _ handle => 1 ≤ handleLoc handle ∧ handleLoc handle ≤ maxHwEntries
  | .addHnode _ _ => True
  | .delHnode _ => True

instance : Decidable e.Legal := by
  unfold ClsEvent.Legal
  split <;> infer_instance

structure ClsState.Start (s : ClsState) : Prop where
  list : s.fdir.filterList = []
  count : s.fdir.filterCount = 0
  links : ∀ t, IsLink t → s.jumpTables t = none

/-- **A child table has recorded a location iff the rule there was installed through it.** -/
def ClsState.Linked : Prop :=
  ∀ t, IsLink t → ∀ j, s.childLoc t j = true ↔ s.Owns t (j + 1)

/-- Its location is in range, and recorded if it is one of a child table. -/
def ClsState.Accepts (handle : U32) : Prop :=
  handleLoc handle ≤ maxHwEntries ∧ (userHtid handle = rootUhtid ∨
    userHtid handle < maxLinkHandle ∧ s.childLoc (userHtid handle) (handleLoc handle - 1) = true)

/-- And a deleted link has taken exactly its rules along. -/
def LinksRight : Prop :=
  (clsStep s e).Linked ∧ match e.call with
  | .delete _ handle => s.Accepts handle → ∀ t, s.findLink handle = some t →
      ∀ r, r ∈ (clsStep s e).fdir.filterList ↔
        r ∈ s.fdir.filterList ∧ s.installedVia r.location ≠ t
  | _ => True

def ClsState.Recorded (loc : ℕ) : Prop :=
  ∃ t, IsLink t ∧ s.childLoc t (loc - 1) = true

/-- An add to the root table in the place of a child table's rule; an add to a child table that
fails in the hardware; a delete there by a link's handle; a failing erase; a delete in the root
table at a child table's rule. -/
def ClsEvent.Breaks : Prop :=
  match e.call with
  | .configure o k => ∃ r queue, Prepared e.config o.alloc s k r queue ∧
      if userHtid k.handle = rootUhtid then
        o.write = true ∧ ¬ Stuck e.config.running o.erase s r ∧ s.Recorded (handleLoc k.handle)
      else userHtid k.handle ≠ 0 ∧ (o.write = false ∨ Stuck e.config.running o.erase s r)
  | .delete erase handle => s.Accepts handle ∧
      if IsLink (userHtid handle) then
        (s.findLink handle).isSome ∨ ¬ Clears e.config.running (erase (handleLoc handle))
      else match s.findLink handle with
      | some t => ∃ j < maxHwEntries, s.childLoc t j = true ∧
          ¬ Clears e.config.running (erase (j + 1))
      | none => Clears e.config.running (erase (handleLoc handle)) ∧
          s.Recorded (handleLoc handle)
  | .addHnode _ _ => False
  | .delHnode _ => False

def ClsState.Named : Prop :=
  ∀ t, IsLink t → ∀ jump, s.jumpTables t = some jump → jump.linkHdl ≠ 0

end

structure ClsState.Shape (s : ClsState) : Prop where
  kept : s.fdir.Kept
  range : s.InRange
  named : s.Named

structure ClsState.Inv (s : ClsState) : Prop extends s.Shape where
  linked : s.Linked

variable {s s' : ClsState} {c : ClsConfig} {o : FdirOutcome} {k : Knode} {t : ℕ}

theorem ClsState.Shape.withMask (h : s.Shape) (m : AtrInput) : (s.withMask m).Shape :=
  ⟨⟨h.kept.sorted, h.kept.count⟩, h.range, h.named⟩

theorem ClsState.Named.setChildLoc (h : s.Named) (t j : ℕ) (b : Bool) :
    (s.setChildLoc t j b).Named := by
  intro t' ht' jump hjump
  by_cases htt : t' = t
  · subst htt
    rw [setChildLoc_jumpTables_self] at hjump
    obtain ⟨old, hold, rfl⟩ := Option.map_eq_some_iff.mp hjump
    exact h t' ht' old hold
  · rw [setChildLoc_jumpTables_of_ne htt] at hjump
    exact h t' ht' jump hjump

theorem ClsState.Shape.setChildLoc (h : s.Shape) (t j : ℕ) (b : Bool) :
    (s.setChildLoc t j b).Shape := ⟨h.kept, h.range, h.named.setChildLoc t j b⟩

section

variable {r : FdirFilter} {queue : U8}

theorem installKnode_shape (h : s.Shape)
    (hpos : 1 ≤ handleLoc k.handle) (hloc : handleLoc k.handle ≤ maxHwEntries)
    (hidx : r.swIdx = BitVec.ofNat 16 (handleLoc k.handle)) :
    (installKnode c o s k r queue).Shape := by
  refine ⟨(installKnode_cases h.kept).1, installKnode_inRange h.kept h.range hpos hloc hidx,
    fun t ht jump hjump => ?_⟩
  rw [installKnode_jumpTables] at hjump
  exact h.named t ht jump hjump

theorem IsLink.ne_root (h : IsLink t) : t ≠ rootUhtid := by
  rintro rfl
  exact absurd h (by decide)

theorem ClsState.Linked.recorded_iff (h : s.Linked) {loc : ℕ} (hloc : 1 ≤ loc) (ht : IsLink t) :
    s.childLoc t (loc - 1) = true ↔ s.Owns t loc := by
  have hj := h t ht (loc - 1)
  rwa [Nat.sub_add_cancel hloc] at hj

theorem ClsState.childLoc_withLink {link j : ℕ} {jump : JumpTable}
    (hmap : jump.childLocMap j = false)
    (hnone : s.jumpTables link = none) : (s.withLink link jump).childLoc t j = s.childLoc t j := by
  by_cases ht : t = link
  · subst ht
    rw [childLoc, withLink_jumpTables_self, Option.any_some, hmap, childLoc_eq_false hnone]
  · rw [childLoc, withLink_jumpTables_of_ne ht, childLoc]

theorem breaks_iff_of_prepared
    (hprep : Prepared c o.alloc s k r queue) : ClsEvent.Breaks s ⟨c, .configure o k⟩ ↔
      if userHtid k.handle = rootUhtid then
        o.write = true ∧ ¬ Stuck c.running o.erase s r ∧ s.Recorded (handleLoc k.handle)
      else userHtid k.handle ≠ 0 ∧ (o.write = false ∨ Stuck c.running o.erase s r) := by
  constructor
  · rintro ⟨r', queue', hprep', hbreaks⟩
    rw [hprep.eq hprep']
    exact hbreaks
  · exact fun hbreaks => ⟨r, queue, hprep, hbreaks⟩

theorem stored_iff (o : FdirOutcome) (running : Bool) (s : ClsState) (r : FdirFilter) :
    o.write = true ∧ ¬ Stuck running o.erase s r ↔
      ¬ (o.write = false ∨ Stuck running o.erase s r) := by
  rw [not_or, Bool.not_eq_false]

section

variable (h : s.fdir.Kept) (hlinked : s.Linked) (hpos : 1 ≤ handleLoc k.handle)
  (hloc : handleLoc k.handle ≤ maxHwEntries)
  (hidx : r.swIdx = BitVec.ofNat 16 (handleLoc k.handle))

include h hlinked hpos hloc hidx

theorem installKnode_linked_iff_root (hroot : userHtid k.handle = rootUhtid) :
    (installKnode c o s k r queue).Linked ↔
      ¬ (o.write = true ∧ ¬ Stuck c.running o.erase s r ∧ s.Recorded (handleLoc k.handle)) := by
  have hbits : ∀ t j, (installKnode c o s k r queue).childLoc t j = s.childLoc t j := fun t j => by
    rw [childLoc, installKnode_jumpTables, childLoc]
  -- if the rule is not stored, nothing changes at all
  by_cases hfail : o.write = false ∨ Stuck c.running o.erase s r
  · refine iff_of_true (fun t ht j => ?_) ?_
    · rw [hbits, installKnode_owns_of_not h hfail]
      exact hlinked t ht j
    · rintro ⟨hwrite, hstuck, -⟩
      exact (stored_iff o c.running s r).mp ⟨hwrite, hstuck⟩ hfail
  · obtain ⟨hwrite, hstuck⟩ := (stored_iff o c.running s r).mpr hfail
    constructor
    · rintro hnew ⟨-, -, t, ht, hbit⟩
      have hown := (hnew.recorded_iff hpos ht).mp ((hbits t _).trans hbit)
      rw [installKnode_owns h hloc hidx hwrite hstuck, if_pos rfl, hroot] at hown
      exact ht.ne_root hown
    · intro hnot t ht j
      rw [hbits, installKnode_owns h hloc hidx hwrite hstuck]
      split
      case isTrue hj =>
        rw [hroot]
        refine iff_of_false (fun hbit => hnot ⟨hwrite, hstuck, t, ht, ?_⟩) ht.ne_root
        rwa [← hj, Nat.add_sub_cancel]
      · exact hlinked t ht j

theorem installKnode_linked_iff_child (hlt : userHtid k.handle < maxLinkHandle)
    (hsome : (s.jumpTables (userHtid k.handle)).isSome)
    (hfree : ∀ t, IsLink t → s.childLoc t (handleLoc k.handle - 1) = false) :
    ((installKnode c o s k r queue).setChildLoc (userHtid k.handle) (handleLoc k.handle - 1)
        true).Linked ↔
      ¬ (userHtid k.handle ≠ 0 ∧ (o.write = false ∨ Stuck c.running o.erase s r)) := by
  -- the location is recorded in any case
  have hself : ((installKnode c o s k r queue).setChildLoc (userHtid k.handle)
      (handleLoc k.handle - 1) true).childLoc (userHtid k.handle) (handleLoc k.handle - 1) =
      true := by
    rw [childLoc_setChildLoc_self, installKnode_jumpTables, hsome, Bool.and_self]
  have hbits : ∀ t j, t ≠ userHtid k.handle ∨ j ≠ handleLoc k.handle - 1 →
      ((installKnode c o s k r queue).setChildLoc (userHtid k.handle)
        (handleLoc k.handle - 1) true).childLoc t j = s.childLoc t j := fun t j hne => by
    rw [childLoc_setChildLoc_of_ne hne, childLoc, installKnode_jumpTables, childLoc]
  have hnobody : ∀ t, IsLink t → ¬ s.Owns t (handleLoc k.handle) := fun t ht hown => by
    have hbit := (hlinked.recorded_iff hpos ht).mpr hown
    rw [hfree t ht] at hbit
    cases hbit
  by_cases hfail : o.write = false ∨ Stuck c.running o.erase s r
  · constructor
    · rintro hnew ⟨hne, -⟩
      -- recorded, but nobody owns the location
      have hu : IsLink (userHtid k.handle) := ⟨Nat.pos_of_ne_zero hne, hlt⟩
      exact hnobody _ hu ((installKnode_owns_of_not h hfail _ _).mp
        ((hnew.recorded_iff hpos hu).mp hself))
    · intro hnot t ht j
      have hne : t ≠ userHtid k.handle := by
        rintro rfl
        exact hnot ⟨Nat.pos_iff_ne_zero.mp ht.1, hfail⟩
      rw [setChildLoc_owns, installKnode_owns_of_not h hfail, hbits t j (.inl hne)]
      exact hlinked t ht j
  · obtain ⟨hwrite, hstuck⟩ := (stored_iff o c.running s r).mpr hfail
    refine iff_of_true (fun t ht j => ?_) ?_
    · rw [setChildLoc_owns, installKnode_owns h hloc hidx hwrite hstuck]
      by_cases hj : j + 1 = handleLoc k.handle
      · obtain rfl : j = handleLoc k.handle - 1 := by omega
        rw [if_pos hj]
        by_cases hu : t = userHtid k.handle
        · rw [hu]
          exact iff_of_true hself rfl
        · rw [hbits t _ (.inl hu), hfree t ht]
          exact iff_of_false (by decide) hu
      · rw [if_neg hj, hbits t j (.inr (by omega))]
        exact hlinked t ht j
    · exact fun hnot => hfail hnot.2

end

end

theorem ConfigureStep.linked_iff (h : s.Inv) (hpos : 1 ≤ handleLoc k.handle)
    (hloc : handleLoc k.handle ≤ maxHwEntries) (hstep : ConfigureStep c o s k s') :
    s'.Linked ↔ ¬ ClsEvent.Breaks s ⟨c, .configure o k⟩ := by
  cases hstep with
  | refused hnot => exact iff_of_true h.linked fun ⟨r, queue, hprep, _⟩ => hnot r queue hprep
  | @linked jump hnot hlink hfree hhdl hmap =>
    refine iff_of_true (fun t ht j => ?_) fun ⟨r, queue, hprep, _⟩ => hnot r queue hprep
    -- a table that exists has a link handle, and would have been refused
    have hnone : s.jumpTables (userHtid k.linkHandle) = none := by
      rw [Option.eq_none_iff_forall_ne_some]
      exact fun old hold => h.named _ hlink old hold (hfree old hold)
    rw [childLoc_withLink (hmap j) hnone]
    exact h.linked t ht j
  | @root m r queue hprep hidx hroot =>
    rw [breaks_iff_of_prepared hprep, if_pos hroot]
    exact installKnode_linked_iff_root (h.toShape.withMask m).kept h.linked hpos hloc hidx hroot
  | @child m r queue hprep hidx hroot hlt hsome hfree =>
    rw [breaks_iff_of_prepared hprep, if_neg hroot]
    exact installKnode_linked_iff_child (h.toShape.withMask m).kept h.linked hpos hloc hidx hlt
      hsome hfree

variable {handle : U32} {running : Bool} {erase : ℕ → Bool}

/-- A delete of a filter of a child table forgets its location first. -/
def ClsState.forget (s : ClsState) (handle : U32) : ClsState :=
  if userHtid handle ≠ rootUhtid then
    s.setChildLoc (userHtid handle) (handleLoc handle - 1) false else s

@[simp] theorem ClsState.forget_fdir (s : ClsState) (handle : U32) :
    (s.forget handle).fdir = s.fdir := by
  rw [forget]
  split <;> rfl

theorem ClsState.forget_owns {l : ℕ} : (s.forget handle).Owns t l ↔ s.Owns t l := by
  rw [forget]
  split <;> rfl

theorem ClsState.forget_findLink : (s.forget handle).findLink handle = s.findLink handle := by
  rw [forget]
  split
  · exact findLink_setChildLoc handle
  · rfl

theorem ClsState.childLoc_forget_self (h : IsLink (userHtid handle)) :
    (s.forget handle).childLoc (userHtid handle) (handleLoc handle - 1) = false := by
  rw [forget, if_pos h.ne_root, childLoc_setChildLoc_self, Bool.false_and]

theorem ClsState.childLoc_forget_of_ne {j : ℕ}
    (h : t ≠ userHtid handle ∨ j ≠ handleLoc handle - 1) :
    (s.forget handle).childLoc t j = s.childLoc t j := by
  rw [forget]
  split
  · exact childLoc_setChildLoc_of_ne h
  · rfl

theorem ClsState.childLoc_forget_of_not_isLink (hu : ¬ IsLink (userHtid handle)) (ht : IsLink t)
    (j : ℕ) : (s.forget handle).childLoc t j = s.childLoc t j :=
  childLoc_forget_of_ne (.inl fun heq => hu (heq ▸ ht))

theorem ClsState.Shape.forget (h : s.Shape) (handle : U32) : (s.forget handle).Shape := by
  rw [ClsState.forget]
  split
  · exact h.setChildLoc _ _ _
  · exact h

@[simp] theorem ClsState.removeRule_childLoc {er : Bool} {l j : ℕ} :
    (s.removeRule running er l).childLoc t j = s.childLoc t j := rfl

theorem ClsState.owns_forget_removeRule (h : s.Shape) (hloc : handleLoc handle ≤ maxHwEntries)
    {er : Bool} {l : ℕ} :
    ((s.forget handle).removeRule running er (handleLoc handle)).Owns t l ↔
      s.Owns t l ∧ ¬ (l = handleLoc handle ∧ Clears running er) := by
  rw [owns_removeRule (h.forget handle).kept hloc, forget_owns]

theorem deleteClsu32_cases (running : Bool) (erase : ℕ → Bool) (s : ClsState) (handle : U32) :
    ¬ s.Accepts handle ∧ (deleteClsu32 running erase s handle).1 = s ∨
    s.Accepts handle ∧ ((∃ t, s.findLink handle = some t ∧
        (deleteClsu32 running erase s handle).1 =
          (deleteLink running erase (s.forget handle) t).1) ∨
      s.findLink handle = none ∧ (deleteClsu32 running erase s handle).1 =
        (s.forget handle).removeRule running (erase (handleLoc handle)) (handleLoc handle)) := by
  rw [deleteClsu32]
  dsimp only
  rw [← forget, forget_findLink]
  split
  case isTrue hloc =>
    exact .inl ⟨fun hacc => Nat.not_le.mpr hloc hacc.1, rfl⟩
  rename_i hloc
  split
  case isTrue htid =>
    refine .inl ⟨fun hacc => ?_, rfl⟩
    rcases hacc.2 with hroot | hchild
    · exact htid.1 hroot
    · exact Nat.not_le.mpr hchild.1 htid.2
  rename_i htid
  split
  case isTrue hbit =>
    refine .inl ⟨fun hacc => ?_, rfl⟩
    rcases hacc.2 with hroot | hchild
    · exact hbit.1 hroot
    · exact absurd hchild.2 (by rw [hbit.2]; decide)
  rename_i hbit
  refine .inr ⟨⟨Nat.not_lt.mp hloc, ?_⟩, ?_⟩
  · by_cases hroot : userHtid handle = rootUhtid
    · exact .inl hroot
    · refine .inr ⟨Nat.not_le.mp fun hge => htid ⟨hroot, hge⟩, ?_⟩
      exact Bool.not_eq_false _ ▸ fun hf => hbit ⟨hroot, hf⟩
  · cases hlink : s.findLink handle with
    | some t => exact .inl ⟨t, rfl, rfl⟩
    | none => exact .inr ⟨rfl, rfl⟩

theorem ClsState.Accepts.childLoc (h : s.Accepts handle) (hu : IsLink (userHtid handle)) :
    s.childLoc (userHtid handle) (handleLoc handle - 1) = true :=
  (h.2.resolve_left hu.ne_root).2

section

variable (h : s.Inv) (hpos : 1 ≤ handleLoc handle) (hacc : s.Accepts handle)

include h hpos hacc

theorem ClsState.Inv.owner_eq (hu : IsLink (userHtid handle)) (ht : IsLink t)
    (hbit : s.childLoc t (handleLoc handle - 1) = true) : t = userHtid handle := by
  have hown := (h.linked.recorded_iff hpos hu).mp (hacc.childLoc hu)
  have hown' := (h.linked.recorded_iff hpos ht).mp hbit
  exact hown'.2.symm.trans hown.2

theorem removeRule_linked_iff_child (hu : IsLink (userHtid handle)) {er : Bool} :
    ((s.forget handle).removeRule running er (handleLoc handle)).Linked ↔ Clears running er := by
  constructor
  · intro hnew
    by_contra hclears
    -- the rule is still there, but its location is forgotten
    have hown := (h.linked.recorded_iff hpos hu).mp (hacc.childLoc hu)
    have hbit := (hnew.recorded_iff hpos hu).mpr
      ((owns_forget_removeRule h.toShape hacc.1).mpr ⟨hown, fun hand => hclears hand.2⟩)
    rw [removeRule_childLoc, childLoc_forget_self hu] at hbit
    cases hbit
  · intro hclears t ht j
    rw [removeRule_childLoc, owns_forget_removeRule h.toShape hacc.1]
    by_cases hj : j + 1 = handleLoc handle
    · obtain rfl : j = handleLoc handle - 1 := by omega
      refine iff_of_false (fun hbit => ?_) fun hand => hand.2 ⟨hj, hclears⟩
      -- no table has recorded the location any more
      by_cases htu : t = userHtid handle
      · rw [htu, childLoc_forget_self hu] at hbit
        cases hbit
      · rw [childLoc_forget_of_ne (.inl htu)] at hbit
        exact htu (h.owner_eq hpos hacc hu ht hbit)
    · rw [childLoc_forget_of_ne (.inr (by omega)), and_iff_left fun hand => hj hand.1]
      exact h.linked t ht j

theorem removeRule_linked_iff_root (hu : ¬ IsLink (userHtid handle)) {er : Bool} :
    ((s.forget handle).removeRule running er (handleLoc handle)).Linked ↔
      ¬ (Clears running er ∧ s.Recorded (handleLoc handle)) := by
  constructor
  · rintro hnew ⟨hclears, t, ht, hbit⟩
    have hown := (hnew.recorded_iff hpos ht).mp
      ((childLoc_forget_of_not_isLink hu ht _).trans hbit)
    exact ((owns_forget_removeRule h.toShape hacc.1).mp hown).2 ⟨rfl, hclears⟩
  · intro hnot t ht j
    rw [removeRule_childLoc, childLoc_forget_of_not_isLink hu ht,
      owns_forget_removeRule h.toShape hacc.1, h.linked t ht j, iff_self_and]
    rintro hown ⟨hj, hclears⟩
    exact hnot ⟨hclears, t, ht, (h.linked.recorded_iff hpos ht).mpr (hj ▸ hown)⟩

end

theorem deleteLink_effect (h : s.fdir.Kept) (running : Bool) (erase : ℕ → Bool) (t : ℕ) :
    (deleteLink running erase s t).1.fdir.Kept ∧
    (∀ r, r ∈ (deleteLink running erase s t).1.fdir.filterList ↔ r ∈ s.fdir.filterList ∧
      ¬ ∃ j < maxHwEntries, s.childLoc t j = true ∧ r.location = j + 1 ∧
        Clears running (erase (j + 1))) ∧
    (∀ t' l, (deleteLink running erase s t).1.Owns t' l ↔ s.Owns t' l ∧
      ¬ ∃ j < maxHwEntries, s.childLoc t j = true ∧ l = j + 1 ∧ Clears running (erase (j + 1))) ∧
    (deleteLink running erase s t).1.jumpTables t = none ∧
    ∀ t' ≠ t, (deleteLink running erase s t).1.jumpTables t' = s.jumpTables t' := by
  obtain ⟨s', hgone, heq⟩ := deleteLink_gone h running erase t
  rw [heq]
  refine ⟨hgone.kept, hgone.mem, fun t' l => ?_, Function.update_self .., fun t' ht' => ?_⟩
  · constructor
    · rintro ⟨⟨r, hr, rfl⟩, hvia⟩
      obtain ⟨hmem, hstay⟩ := (hgone.mem r).mp hr
      exact ⟨⟨⟨r, hmem, rfl⟩, hgone.via ▸ hvia⟩, hstay⟩
    · rintro ⟨⟨⟨r, hmem, rfl⟩, hvia⟩, hstay⟩
      exact ⟨⟨r, (hgone.mem r).mpr ⟨hmem, hstay⟩, rfl⟩, hgone.via.symm ▸ hvia⟩
  · exact (Function.update_of_ne ht' ..).trans (hgone.others t' ht')

theorem deleteLink_not_linked (h : s.Inv) (hpos : 1 ≤ handleLoc handle) (hacc : s.Accepts handle)
    (hu : IsLink (userHtid handle)) (ht : IsLink t) :
    ¬ (deleteLink running erase (s.forget handle) t).1.Linked := by
  have hkept := (h.toShape.forget handle).kept
  obtain ⟨-, -, howns, hhere, hothers⟩ := deleteLink_effect hkept running erase t
  intro hnew
  -- the loop over the child table of the link does not meet the location
  have hgone : (s.forget handle).childLoc t (handleLoc handle - 1) = false := by
    by_cases htu : t = userHtid handle
    · rw [htu, childLoc_forget_self hu]
    · rw [childLoc_forget_of_ne (.inl htu)]
      exact Bool.eq_false_iff.mpr fun hbit => htu (h.owner_eq hpos hacc hu ht hbit)
  have hown : s.Owns (userHtid handle) (handleLoc handle) :=
    (h.linked.recorded_iff hpos hu).mp (hacc.childLoc hu)
  have hstay : (deleteLink running erase (s.forget handle) t).1.Owns (userHtid handle)
      (handleLoc handle) := by
    refine (howns _ _).mpr ⟨forget_owns.mpr hown, ?_⟩
    rintro ⟨j, -, hbit, hj, -⟩
    obtain rfl : j = handleLoc handle - 1 := by omega
    rw [hgone] at hbit
    cases hbit
  have hbit := (hnew.recorded_iff hpos hu).mpr hstay
  by_cases htu : userHtid handle = t
  · rw [htu, childLoc_eq_false hhere] at hbit
    cases hbit
  · rw [childLoc, hothers _ htu, ← childLoc, childLoc_forget_self hu] at hbit
    cases hbit

theorem ClsState.Inv.childLoc_lt (h : s.Inv) (ht : IsLink t) {j : ℕ}
    (hbit : s.childLoc t j = true) :
    j < maxHwEntries := by
  obtain ⟨⟨r, hr, hloc⟩, -⟩ := (h.linked t ht j).mp hbit
  have hle := (h.range r hr).2
  omega

theorem deleteLink_linked_iff (h : s.Inv) (hu : ¬ IsLink (userHtid handle)) (ht : IsLink t) :
    (deleteLink running erase (s.forget handle) t).1.Linked ↔
      ¬ ∃ j < maxHwEntries, s.childLoc t j = true ∧ ¬ Clears running (erase (j + 1)) := by
  have hkept := (h.toShape.forget handle).kept
  obtain ⟨-, -, howns, hhere, hothers⟩ := deleteLink_effect hkept running erase t
  have hbits : ∀ t', IsLink t' → ∀ j, (s.forget handle).childLoc t' j = s.childLoc t' j :=
    fun t' ht' j => childLoc_forget_of_not_isLink hu ht' j
  have howns' : ∀ t', IsLink t' → ∀ j,
      (deleteLink running erase (s.forget handle) t).1.Owns t' (j + 1) ↔
        s.Owns t' (j + 1) ∧ ¬ (s.childLoc t j = true ∧ Clears running (erase (j + 1))) := by
    intro t' ht' j
    rw [howns, forget_owns]
    refine and_congr_right fun _ => not_congr ⟨?_, fun ⟨hbit, hclears⟩ => ?_⟩
    · rintro ⟨j', -, hbit, hj, hclears⟩
      obtain rfl : j = j' := Nat.succ.inj hj
      exact ⟨hbits t ht j ▸ hbit, hclears⟩
    · exact ⟨j, h.childLoc_lt ht hbit, (hbits t ht j).trans hbit, rfl, hclears⟩
  constructor
  · rintro hnew ⟨j, -, hbit, hfail⟩
    have hown := (howns' t ht j).mpr ⟨(h.linked t ht j).mp hbit, fun hand => hfail hand.2⟩
    -- the rule is still there, but its table is gone
    have hbit' := (hnew t ht j).mpr hown
    rw [childLoc_eq_false hhere] at hbit'
    cases hbit'
  · intro hnot t' ht' j
    rw [howns' t' ht']
    by_cases htt : t' = t
    · subst htt
      rw [childLoc_eq_false hhere]
      refine iff_of_false (by decide) fun ⟨hown, hstay⟩ => ?_
      have hbit := (h.linked t' ht' j).mpr hown
      exact hnot ⟨j, h.childLoc_lt ht' hbit, hbit, fun hclears => hstay ⟨hbit, hclears⟩⟩
    · rw [childLoc, hothers t' htt, ← childLoc, hbits t' ht', h.linked t' ht' j, iff_self_and]
      -- a location has one owner
      rintro hown ⟨hbit, -⟩
      exact htt (hown.2.symm.trans ((h.linked t ht j).mp hbit).2)

theorem mem_deleteLink (h : s.Inv) (hu : ¬ IsLink (userHtid handle)) (ht : IsLink t)
    (hok : ¬ ∃ j < maxHwEntries, s.childLoc t j = true ∧ ¬ Clears running (erase (j + 1)))
    (r : FdirFilter) :
    r ∈ (deleteLink running erase (s.forget handle) t).1.fdir.filterList ↔
      r ∈ s.fdir.filterList ∧ s.installedVia r.location ≠ t := by
  have hkept := (h.toShape.forget handle).kept
  obtain ⟨-, hmem, -⟩ := deleteLink_effect hkept running erase t
  rw [hmem, forget_fdir]
  refine and_congr_right fun hr => not_congr ⟨?_, fun hvia => ?_⟩
  · rintro ⟨j, -, hbit, hj, -⟩
    rw [childLoc_forget_of_not_isLink hu ht] at hbit
    rw [hj]
    exact ((h.linked t ht j).mp hbit).2
  · obtain ⟨hpos, -⟩ := h.range r hr
    have hbit := (h.linked.recorded_iff hpos ht).mpr ⟨⟨r, hr, rfl⟩, hvia⟩
    have hlt := h.childLoc_lt ht hbit
    refine ⟨r.location - 1, hlt, ?_, (Nat.sub_add_cancel hpos).symm, ?_⟩
    · rw [childLoc_forget_of_not_isLink hu ht, hbit]
    · by_contra hfail
      exact hok ⟨r.location - 1, hlt, hbit, hfail⟩

theorem ClsState.Start.inv (h : s.Start) : s.Inv := by
  have hempty : ∀ r, r ∉ s.fdir.filterList := fun r hr => by
    rw [h.list] at hr
    exact absurd hr not_mem_nil
  refine ⟨⟨⟨?_, ?_⟩, fun r hr => absurd hr (hempty r), fun t ht jump hjump => ?_⟩, fun t ht j => ?_⟩
  · rw [h.list]
    exact List.Pairwise.nil
  · rw [h.list, h.count]
    rfl
  · rw [h.links t ht] at hjump
    cases hjump
  · rw [childLoc_eq_false (h.links t ht)]
    exact iff_of_false (by decide) fun ⟨⟨r, hr, _⟩, _⟩ => hempty r hr

theorem ConfigureStep.shape (h : s.Shape) (hpos : 1 ≤ handleLoc k.handle)
    (hloc : handleLoc k.handle ≤ maxHwEntries) (hstep : ConfigureStep c o s k s') : s'.Shape := by
  cases hstep with
  | refused => exact h.withMask _
  | @linked jump _ hlink _ hhdl _ =>
    refine ⟨h.kept, h.range, fun t ht jump' hjump => ?_⟩
    by_cases htl : t = userHtid k.linkHandle
    · rw [htl, withLink_jumpTables_self] at hjump
      obtain rfl := Option.some.inj hjump
      rw [hhdl]
      intro hzero
      rw [hzero] at hpos
      exact absurd hpos (by decide)
    · rw [withLink_jumpTables_of_ne htl] at hjump
      exact h.named t ht jump' hjump
  | @root m r queue _ hidx _ => exact installKnode_shape (h.withMask m) hpos hloc hidx
  | @child m r queue _ hidx _ _ _ _ =>
    exact (installKnode_shape (h.withMask m) hpos hloc hidx).setChildLoc _ _ _

theorem deleteClsu32_shape (h : s.Shape) (running : Bool) (erase : ℕ → Bool) (handle : U32) :
    (deleteClsu32 running erase s handle).1.Shape := by
  have hf := h.forget handle
  rcases deleteClsu32_cases running erase s handle with
    ⟨-, heq⟩ | ⟨hacc, ⟨t, -, heq⟩ | ⟨-, heq⟩⟩
  · rw [heq]
    exact h
  · obtain ⟨hkept, hmem, -, hhere, hothers⟩ := deleteLink_effect hf.kept running erase t
    rw [heq]
    refine ⟨hkept, fun r hr => hf.range r ((hmem r).mp hr).1, fun t' ht' jump hjump => ?_⟩
    by_cases htt : t' = t
    · rw [htt, hhere] at hjump
      cases hjump
    · exact hf.named t' ht' jump ((hothers t' htt).symm.trans hjump)
  · rw [heq]
    exact ⟨removeRule_kept hf.kept _ _ _,
      fun r hr => hf.range r ((mem_removeRule hf.kept hacc.1).mp hr).1, hf.named⟩

theorem addHnode_eq (s : ClsState) (handle : U32) (divisor : ℕ) :
    ∃ w, (addHnode s handle divisor).1 = { s with tables := w } := by
  rw [addHnode]
  split
  · exact ⟨s.tables, rfl⟩
  split
  · exact ⟨s.tables, rfl⟩
  · exact ⟨_, rfl⟩

theorem delHnode_eq (s : ClsState) (handle : U32) :
    ∃ w, (delHnode s handle).1 = { s with tables := w } := by
  rw [delHnode]
  split
  · exact ⟨s.tables, rfl⟩
  · exact ⟨_, rfl⟩

theorem clsStep_shape {e : ClsEvent} (h : s.Shape) (hlegal : e.Legal) : (clsStep s e).Shape := by
  obtain ⟨c, call⟩ := e
  cases call with
  | configure o k => exact (configureClsu32_step c o s k).shape h hlegal.1 hlegal.2
  | delete erase handle => exact deleteClsu32_shape h c.running erase handle
  | addHnode handle divisor =>
    obtain ⟨w, heq⟩ := addHnode_eq s handle divisor
    rw [clsStep_addHnode, heq]
    exact { h with }
  | delHnode handle =>
    obtain ⟨w, heq⟩ := delHnode_eq s handle
    rw [clsStep_delHnode, heq]
    exact { h with }

theorem deleteClsu32_linked_iff (h : s.Inv) (hpos : 1 ≤ handleLoc handle) :
    (deleteClsu32 c.running erase s handle).1.Linked ↔
      ¬ ClsEvent.Breaks s ⟨c, .delete erase handle⟩ := by
  rcases deleteClsu32_cases c.running erase s handle with
    ⟨hacc, heq⟩ | ⟨hacc, ⟨t, hlink, heq⟩ | ⟨hlink, heq⟩⟩
  · rw [heq]
    exact iff_of_true h.linked fun hbreaks => hacc hbreaks.1
  · have ht := isLink_of_findLink hlink
    simp only [heq, ClsEvent.Breaks, and_iff_right hacc, hlink]
    split
    case isTrue hu =>
      exact iff_of_false (deleteLink_not_linked h hpos hacc hu ht) (not_not.mpr (.inl rfl))
    case isFalse hu =>
      exact deleteLink_linked_iff h hu ht
  · simp only [heq, ClsEvent.Breaks, and_iff_right hacc, hlink]
    split
    case isTrue hu =>
      rw [removeRule_linked_iff_child h hpos hacc hu]
      simp
    case isFalse hu =>
      exact removeRule_linked_iff_root h hpos hacc hu

theorem clsStep_linked_iff {e : ClsEvent} (h : s.Inv) (hlegal : e.Legal) :
    (clsStep s e).Linked ↔ ¬ e.Breaks s := by
  obtain ⟨c, call⟩ := e
  cases call with
  | configure o k => exact (configureClsu32_step c o s k).linked_iff h hlegal.1 hlegal.2
  | delete erase handle => exact deleteClsu32_linked_iff h hlegal.1
  | addHnode handle divisor =>
    obtain ⟨w, heq⟩ := addHnode_eq s handle divisor
    rw [clsStep_addHnode, heq]
    exact iff_of_true h.linked not_false
  | delHnode handle =>
    obtain ⟨w, heq⟩ := delHnode_eq s handle
    rw [clsStep_delHnode, heq]
    exact iff_of_true h.linked not_false

theorem linksRight_iff {e : ClsEvent} (h : s.Inv) (hlegal : e.Legal) :
    LinksRight s e ↔ ¬ e.Breaks s := by
  rw [LinksRight, clsStep_linked_iff h hlegal, and_iff_left_iff_imp]
  intro hok
  obtain ⟨c, call⟩ := e
  cases call with
  | configure o k => trivial
  | delete erase handle =>
    intro hacc t hlink
    have ht := isLink_of_findLink hlink
    -- the condition excludes a link behind a link, and a failing erase
    have hu : ¬ IsLink (userHtid handle) := fun hu =>
      hok ⟨hacc, by rw [if_pos hu, hlink]; exact .inl rfl⟩
    have hdone : ¬ ∃ j < maxHwEntries, s.childLoc t j = true ∧
        ¬ Clears c.running (erase (j + 1)) := fun hfail =>
      hok ⟨hacc, by rw [if_neg hu, hlink]; exact hfail⟩
    rcases deleteClsu32_cases c.running erase s handle with
      ⟨hno, -⟩ | ⟨-, ⟨t', hlink', heq⟩ | ⟨hlink', -⟩⟩
    · exact absurd hacc hno
    · obtain rfl := Option.some.inj (hlink.symm.trans hlink')
      rw [clsStep_delete, heq]
      exact mem_deleteLink h hu ht hdone
    · cases hlink.symm.trans hlink'
  | addHnode handle divisor => trivial
  | delHnode handle => trivial

/-- **The links are right in a run exactly as long as no call breaks them.** -/
theorem links_iff_no_breaks (s : ClsState) (hs : s.Start) (es : List ClsEvent)
    (hlegal : ∀ e ∈ es, e.Legal) :
    Along clsStep LinksRight s es ↔ Along clsStep (fun s e => ¬ e.Breaks s) s es := by
  have hstep : ∀ s (e : ClsEvent), ClsState.Inv s → e.Legal → ¬ e.Breaks s → (clsStep s e).Inv :=
    fun s e h hl hok => ⟨clsStep_shape h.toShape hl, (clsStep_linked_iff h hl).mpr hok⟩
  exact along_iff_along (fun _ (e : ClsEvent) => e.Legal) hstep
    (fun s e h hl => linksRight_iff h hl) hs.inv (along_of_forall s es hlegal)

def noLinks : ClsState where
  fdir := noRules
  jumpTables t := if t = 0 then some ⟨ipv4Fields, none, none, 0, fun _ => false⟩ else none
  tables := 0
  installedVia _ := 0

def clsConfig : ClsConfig := { fdirConfig true with vfIfindex := fun _ => 0 }

def tcpLink : Knode where
  protocol := 0x0008
  handle := 0x80000001
  linkHandle := 0x00100000
  keys := [⟨8, 0x600, 0xff00⟩]
  offoff := 0
  offshift := 6
  offmask := 0xf
  exts := []

def portFilter : Knode where
  protocol := 0x0008
  handle := 0x00100002
  linkHandle := 0
  keys := [⟨0, 0x5000, 0xff00⟩]
  offoff := 0
  offshift := 0
  offmask := 0
  exts := [.shot]

theorem noLinks_start : noLinks.Start := ⟨rfl, rfl, fun _ ht => if_neg (Nat.ne_of_gt ht.1)⟩

theorem links_iff_no_breaks_delete_link :
    Along clsStep LinksRight noLinks
      [⟨clsConfig, .addHnode 0x00100000 0⟩, ⟨clsConfig, .configure allFine tcpLink⟩,
        ⟨clsConfig, .configure allFine portFilter⟩,
        ⟨clsConfig, .delete (fun _ => true) 0x80000001⟩] := by
  refine (links_iff_no_breaks noLinks noLinks_start _ (by decide)).mpr
    ⟨not_false, ?_, ?_, ?_, trivial⟩
  · rintro ⟨r, queue, ⟨-, -, hlink, -⟩, -⟩
    exact absurd hlink (by decide)
  · rintro ⟨r, queue, -, hbreaks⟩
    rcases hbreaks.2 with hwrite | hstuck
    · cases hwrite
    · cases hstuck.2.1
  · rintro ⟨-, hrest⟩
    obtain ⟨j, -, -, hfail⟩ := hrest
    exact hfail fun _ => rfl

def refusedRun : List ClsEvent :=
  [⟨clsConfig, .addHnode 0x00100000 0⟩, ⟨clsConfig, .configure allFine tcpLink⟩,
    ⟨clsConfig, .configure ⟨true, false, true⟩ portFilter⟩]

/-- The location of the refused filter is recorded. -/
theorem refused_filter_recorded :
    noLinks.Start ∧ (∀ e ∈ refusedRun, e.Legal) ∧
      ¬ Along clsStep LinksRight noLinks refusedRun := by
  have hbit : (run clsStep noLinks refusedRun).childLoc 1 1 = true := by decide +kernel
  have hlist : (run clsStep noLinks refusedRun).fdir.filterList = [] := by decide +kernel
  refine ⟨noLinks_start, by decide, ?_⟩
  rintro ⟨-, -, ⟨hlinked, -⟩, -⟩
  obtain ⟨⟨r, hr, -⟩, -⟩ := (hlinked 1 (by decide) 1).mp hbit
  exact not_mem_nil (hlist ▸ hr)

end Ixgbe
