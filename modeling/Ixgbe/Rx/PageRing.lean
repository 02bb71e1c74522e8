import Ixgbe.Hw.DescRing
import Ixgbe.Library.EventRun
import Ixgbe.Library.RingWalk

/-! # Page ownership on an Rx ring

Packet split build, no RSC. Counted from `next_to_clean`, `0 ≤ head ≤ next_to_use ≤ next_to_alloc <
count`: the slots before `next_to_alloc` have a page, those from the hardware's head to
`next_to_use` length zero. -/

namespace Ixgbe

open EventRun Ring Function Nat

/-- `head` and `pages` are not in the driver: where the hardware writes, and the pages allocated. -/
structure RxRing where
  count : ℕ
  nextToClean : ℕ
  nextToUse : ℕ
  nextToAlloc : ℕ
  page : ℕ → Option ℕ
  /-- `rx_buffer_info[i].skb` is set: the frame continues in this buffer. -/
  skb : ℕ → Bool
  len : ℕ → ℕ
  eop : ℕ → Bool
  /-- Of the running `ixgbe_clean_rx_irq`. -/
  cleanedCount : ℕ
  head : ℕ
  pages : ℕ

/-- Of `dev_alloc_pages` and `dma_map_page_attrs`. -/
inductive PageAlloc
  | ok
  | noPage
  | noMapping
  deriving DecidableEq, Repr

/-- One that cannot be mapped goes back to the system. -/
def allocMappedPage (alloc : ℕ → PageAlloc) (r : RxRing) (i : ℕ) : Bool × RxRing :=
  if (r.page i).isSome then (true, r)
  else match alloc i with
    | .ok =>
      (true, { r with page := update r.page i (some r.pages), pages := r.pages + 1 })
    | .noPage => (false, r)
    | .noMapping => (false, { r with pages := r.pages + 1 })

def clearLength (r : RxRing) (i : ℕ) : RxRing := { r with len := update r.len i 0 }

def releaseRxDesc (r : RxRing) (val : ℕ) : RxRing := { r with nextToUse := val, nextToAlloc := val }

/-- A slot is visited at most once: `alloc` is by slot. The index is biased by `-count`. -/
def allocRxBuffers (alloc : ℕ → PageAlloc) (r : RxRing) (cleanedCount : ℕ) : RxRing :=
  if cleanedCount = 0 then r
  else
    let i : BitVec 16 := BitVec.ofNat 16 r.nextToUse - BitVec.ofNat 16 r.count
    let w := walk r.count (allocMappedPage alloc) clearLength cleanedCount r r.nextToUse i
    let i := (w.2.2 + BitVec.ofNat 16 r.count).toNat
    if w.1.nextToUse ≠ i then releaseRxDesc w.1 i else w.1

def reuseRxPage (r : RxRing) : RxRing :=
  { r with
    nextToAlloc := next r.count r.nextToAlloc
    page := update r.page r.nextToAlloc (r.page r.nextToClean) }

/-- `reuse` is the answer of `ixgbe_can_reuse_rx_page`. -/
def putRxBuffer (reuse : Bool) (r : RxRing) : RxRing :=
  let r₁ := if reuse then reuseRxPage r else r
  { r₁ with
    page := update r₁.page r.nextToClean none
    skb := update r₁.skb r.nextToClean false }

/-- On to the next descriptor, and the unfinished frame goes with it. -/
def isNonEop (r : RxRing) : RxRing :=
  let ntc := next r.count r.nextToClean
  if r.eop r.nextToClean then { r with nextToClean := ntc }
  else { r with nextToClean := ntc, skb := update r.skb ntc true }

/-- `ixgbe_clean_rx_irq` is `irq` and then `refill` and `clean`. -/
inductive RxEvent
  /-- `cleaned_count = ixgbe_desc_unused`. -/
  | irq
  /-- The test of `cleaned_count` at the top of the loop. -/
  | refill (alloc : ℕ → PageAlloc)
  /-- `built` is false if no `skb` could be made. -/
  | clean (built reuse : Bool)
  /-- The hardware writes a descriptor back, with length `len + 1`. -/
  | writeBack (len : ℕ) (eop : Bool)

def rxBufferWrite : ℕ := 16

def rxStep (r : RxRing) : RxEvent → RxRing
  | .irq => { r with cleanedCount := descUnused r.count r.nextToClean r.nextToUse }
  | .refill alloc =>
    if rxBufferWrite ≤ r.cleanedCount then
      { allocRxBuffers alloc r r.cleanedCount with cleanedCount := 0 }
    else r
  | .clean built reuse =>
    if r.len r.nextToClean = 0 then r
    -- the page stays where it is if no skb can be made; a frame under way has one
    else if built = false ∧ r.skb r.nextToClean = false then r
    else isNonEop { putRxBuffer reuse r with cleanedCount := r.cleanedCount + 1 }
  | .writeBack len eop =>
    if r.head = r.nextToUse then r
    else { r with
      len := update r.len r.head (len + 1)
      eop := update r.eop r.head eop
      head := next r.count r.head }

/-- As `ixgbe_configure_rx_ring` leaves it before it is filled. -/
structure RxRing.Fresh (r : RxRing) : Prop where
  pos : 0 < r.count
  lt : r.count < 2 ^ 16
  nextToClean : r.nextToClean = 0
  nextToUse : r.nextToUse = 0
  nextToAlloc : r.nextToAlloc = 0
  head : r.head = 0
  page : ∀ i, r.page i = none
  len : r.len 0 = 0
  cleanedCount : r.cleanedCount = 0

def fillRxRing (alloc : ℕ → PageAlloc) (r : RxRing) : RxRing :=
  { allocRxBuffers alloc r (descUnused r.count r.nextToClean r.nextToUse) with cleanedCount := 0 }

/-- **Ownership**: exactly the slots from `next_to_clean` up to `next_to_alloc` hold a page, and
none twice. -/
structure RxRing.Owned (r : RxRing) : Prop where
  clean_lt : r.nextToClean < r.count
  use_lt : r.nextToUse < r.count
  alloc_lt : r.nextToAlloc < r.count
  page_iff : ∀ i < r.count, (r.page i).isSome = true ↔
    dist r.count r.nextToClean i < dist r.count r.nextToClean r.nextToAlloc
  page_inj : ∀ i < r.count, ∀ j < r.count, ∀ p, r.page i = some p → r.page j = some p → i = j

/-- No page is stored over another, nor `next_to_use` moved onto `next_to_clean`. -/
def RxRing.StepSafe (r : RxRing) : RxEvent → Prop
  | .clean built true => r.len r.nextToClean ≠ 0 → (built = true ∨ r.skb r.nextToClean = true) →
      r.page r.nextToAlloc = none
  | .refill alloc => (rxStep r (.refill alloc)).nextToUse ≠ r.nextToUse →
      (rxStep r (.refill alloc)).nextToUse ≠ r.nextToClean
  | _ => True

structure PagesNamed (n pages : ℕ) (page : ℕ → Option ℕ) : Prop where
  lt : ∀ i p, page i = some p → p < pages
  inj : ∀ i < n, ∀ j < n, ∀ p, page i = some p → page j = some p → i = j

section

variable {n pages : ℕ} {page : ℕ → Option ℕ}

theorem PagesNamed.fresh (hN : PagesNamed n pages page)
    (i : ℕ) : PagesNamed n (pages + 1) (update page i (some pages)) := by
  have hold : ∀ j p, update page i (some pages) j = some p →
      j = i ∧ p = pages ∨ page j = some p := by
    intro j p hj
    by_cases hji : j = i
    · subst hji
      rw [update_self] at hj
      exact .inl ⟨rfl, (Option.some.inj hj).symm⟩
    · rw [update_of_ne hji] at hj
      exact .inr hj
  refine ⟨fun j p hj => ?_, fun j hj k hk p hpj hpk => ?_⟩
  · rcases hold j p hj with ⟨-, rfl⟩ | hp
    · exact lt_succ_self _
    · exact lt_succ_of_lt (hN.lt j p hp)
  · rcases hold j p hpj with ⟨rfl, rfl⟩ | hp
    · rcases hold k _ hpk with ⟨rfl, -⟩ | hk'
      · rfl
      · exact absurd (hN.lt k _ hk') (lt_irrefl _)
    · rcases hold k p hpk with ⟨rfl, rfl⟩ | hk'
      · exact absurd (hN.lt j _ hp) (lt_irrefl _)
      · exact hN.inj j hj k hk p hp hk'

theorem PagesNamed.drop (hN : PagesNamed n pages page)
    (i : ℕ) : PagesNamed n pages (update page i none) := by
  have hold : ∀ j p, update page i none j = some p → page j = some p := by
    intro j p hj
    by_cases hji : j = i
    · rw [hji, update_self] at hj
      cases hj
    · rwa [update_of_ne hji] at hj
  exact ⟨fun j p hj => hN.lt j p (hold j p hj),
    fun j hj k hk p hpj hpk => hN.inj j hj k hk p (hold j p hpj) (hold k p hpk)⟩

theorem PagesNamed.move (hN : PagesNamed n pages page) {src : ℕ} (hsrc : src < n) (dst : ℕ) :
    PagesNamed n pages (update (update page dst (page src)) src none) := by
  have hold : ∀ j p, update (update page dst (page src)) src none j = some p →
      j ≠ src ∧ (j = dst ∧ page src = some p ∨ page j = some p) := by
    intro j p hj
    by_cases hjs : j = src
    · rw [hjs, update_self] at hj
      cases hj
    · rw [update_of_ne hjs] at hj
      by_cases hjd : j = dst
      · rw [hjd, update_self] at hj
        exact ⟨hjs, .inl ⟨hjd, hj⟩⟩
      · rw [update_of_ne hjd] at hj
        exact ⟨hjs, .inr hj⟩
  refine ⟨fun j p hj => ?_, fun j hj k hk p hpj hpk => ?_⟩
  · rcases (hold j p hj).2 with ⟨-, hp⟩ | hp
    · exact hN.lt src p hp
    · exact hN.lt j p hp
  · obtain ⟨hjs, hj'⟩ := hold j p hpj
    obtain ⟨hks, hk'⟩ := hold k p hpk
    rcases hj' with ⟨rfl, hp⟩ | hp
    · rcases hk' with ⟨rfl, -⟩ | hk'
      · rfl
      · exact absurd (hN.inj k hk src hsrc p hk' hp) hks
    · rcases hk' with ⟨rfl, hk'⟩ | hk'
      · exact absurd (hN.inj j hj src hsrc p hp hk') hjs
      · exact hN.inj j hj k hk p hp hk'

end

/-- Distances of head, `next_to_use` and `next_to_alloc` from `next_to_clean`. `cleaned_count`
covers the recycled pages. -/
structure RxRing.Inv (r : RxRing) (h u t : ℕ) : Prop where
  lt16 : r.count < 2 ^ 16
  clean_lt : r.nextToClean < r.count
  head : r.head = slot r.count r.nextToClean h
  use : r.nextToUse = slot r.count r.nextToClean u
  alloc : r.nextToAlloc = slot r.count r.nextToClean t
  head_le : h ≤ u
  use_le : u ≤ t
  alloc_lt : t < r.count
  page_iff : ∀ k < r.count, (r.page (slot r.count r.nextToClean k)).isSome = true ↔ k < t
  named : PagesNamed r.count r.pages r.page
  len : ∀ k, h ≤ k → k ≤ u → r.len (slot r.count r.nextToClean k) = 0
  recycled : t - u ≤ r.cleanedCount
  room : r.cleanedCount ≤ r.count - 1 - u

section

variable {r : RxRing} {h u t : ℕ}

theorem RxRing.Inv.pos (hI : r.Inv h u t) : 0 < r.count := zero_lt_of_lt hI.clean_lt

theorem RxRing.Inv.owned (hI : r.Inv h u t) : r.Owned := by
  have hn := hI.pos
  refine ⟨hI.clean_lt, ?_, ?_, fun i hi => ?_, hI.named.inj⟩
  · rw [hI.use]
    exact slot_lt hn _ _
  · rw [hI.alloc]
    exact slot_lt hn _ _
  · rw [hI.alloc, dist_slot hI.clean_lt hI.alloc_lt,
      ← hI.page_iff _ (dist_lt hn r.nextToClean i), slot_dist hI.clean_lt hi]

/-- `k` descriptors have a page and the one it has arrived at has length zero. -/
structure Filling (r₀ : RxRing) (h u t k : ℕ) (r : RxRing) : Prop where
  count : r.count = r₀.count
  nextToClean : r.nextToClean = r₀.nextToClean
  nextToUse : r.nextToUse = r₀.nextToUse
  nextToAlloc : r.nextToAlloc = r₀.nextToAlloc
  head : r.head = r₀.head
  page_iff : ∀ m < r₀.count,
    (r.page (slot r₀.count r₀.nextToClean m)).isSome = true ↔ m < max t (u + k)
  named : PagesNamed r.count r.pages r.page
  len : ∀ m, h ≤ m → m ≤ u + k → r.len (slot r₀.count r₀.nextToClean m) = 0

theorem RxRing.Inv.filling (hI : r.Inv h u t) : Filling r h u t 0 r := by
  refine ⟨rfl, rfl, rfl, rfl, rfl, fun m hm => ?_, hI.named, hI.len⟩
  rw [hI.page_iff m hm, add_zero, max_eq_left hI.use_le]

theorem allocMappedPage_cases (alloc : ℕ → PageAlloc) (r : RxRing) (i : ℕ) :
    ((r.page i).isSome = true ∧ allocMappedPage alloc r i = (true, r)) ∨
      (r.page i).isSome = false ∧
        (allocMappedPage alloc r i = (true, { r with
            page := update r.page i (some r.pages), pages := r.pages + 1 }) ∨
          ∃ pages ≥ r.pages, allocMappedPage alloc r i = (false, { r with pages := pages })) := by
  unfold allocMappedPage
  split
  case isTrue hp =>
    exact .inl ⟨hp, rfl⟩
  case isFalse hp =>
    refine .inr ⟨Bool.eq_false_iff.mpr hp, ?_⟩
    cases alloc i with
    | ok => exact .inl rfl
    | noPage => exact .inr ⟨r.pages, le_rfl, rfl⟩
    | noMapping => exact .inr ⟨r.pages + 1, le_succ _, rfl⟩

section

variable {r₀ : RxRing} {alloc : ℕ → PageAlloc} {k : ℕ}

theorem Filling.fill (hf : Filling r₀ h u t k r) (hlt : u + k < r₀.count)
    (hok : (allocMappedPage alloc r (slot r₀.count r₀.nextToClean (u + k))).1 = true) :
    let r' := (allocMappedPage alloc r (slot r₀.count r₀.nextToClean (u + k))).2
    (∀ m < r₀.count, (r'.page (slot r₀.count r₀.nextToClean m)).isSome = true ↔
        m < max t (u + k + 1)) ∧
      PagesNamed r'.count r'.pages r'.page ∧ r'.len = r.len ∧ r'.count = r.count ∧
      r'.nextToClean = r.nextToClean ∧
      r'.nextToUse = r.nextToUse ∧ r'.nextToAlloc = r.nextToAlloc ∧ r'.head = r.head := by
  have hhere := hf.page_iff (u + k) hlt
  rcases allocMappedPage_cases alloc r (slot r₀.count r₀.nextToClean (u + k)) with
    ⟨hp, heq⟩ | ⟨hp, heq | ⟨pages, -, heq⟩⟩
  · -- a recycled page: the slot is before `next_to_alloc`
    rw [heq]
    refine ⟨fun m hm => ?_, hf.named, rfl, rfl, rfl, rfl, rfl, rfl⟩
    have hlt' := hhere.mp hp
    rw [hf.page_iff m hm]
    omega
  · -- a new page: all slots before this one have one
    rw [heq]
    refine ⟨fun m hm => ?_, hf.named.fresh _, rfl, rfl, rfl, rfl, rfl, rfl⟩
    dsimp only
    by_cases hm' : m = u + k
    · subst hm'
      simp
    · rw [update_of_ne (slot_ne hm hlt hm'), hf.page_iff m hm]
      omega
  · rw [heq] at hok
    cases hok

theorem Filling.step (hf : Filling r₀ h u t k r) (hlt : u + k + 1 < r₀.count)
    (hok : (allocMappedPage alloc r (slot r₀.count r₀.nextToClean (u + k))).1 = true) :
    Filling r₀ h u t (k + 1)
      (clearLength (allocMappedPage alloc r (slot r₀.count r₀.nextToClean (u + k))).2
        (slot r₀.count r₀.nextToClean (u + k + 1))) := by
  obtain ⟨hpage, hnamed, hlen, hcount, hntc, hntu, hnta, hhead⟩ := hf.fill (by omega) hok
  refine ⟨hcount.trans hf.count, hntc.trans hf.nextToClean, hntu.trans hf.nextToUse,
    hnta.trans hf.nextToAlloc, hhead.trans hf.head, hpage, hnamed, ?_⟩
  intro m hm hm'
  rw [clearLength, hlen]
  dsimp only
  by_cases hlast : m = u + k + 1
  · rw [hlast, update_self]
  · rw [update_of_ne (slot_ne (by omega) hlt hlast)]
    exact hf.len m hm (by omega)

theorem Filling.stop (hf : Filling r₀ h u t k r) (hlt : u + k < r₀.count)
    (hno : (allocMappedPage alloc r (slot r₀.count r₀.nextToClean (u + k))).1 = false) :
    Filling r₀ h u t k (allocMappedPage alloc r (slot r₀.count r₀.nextToClean (u + k))).2 ∧
      t ≤ u + k := by
  have hhere := hf.page_iff (u + k) hlt
  rcases allocMappedPage_cases alloc r (slot r₀.count r₀.nextToClean (u + k)) with
    ⟨hp, heq⟩ | ⟨hp, heq | ⟨pages, hle, heq⟩⟩
  · rw [heq] at hno
    cases hno
  · rw [heq] at hno
    cases hno
  · have hge : ¬ u + k < max t (u + k) := by
      intro hc
      rw [hhere.mpr hc] at hp
      exact absurd hp (by decide)
    rw [heq]
    refine ⟨⟨hf.count, hf.nextToClean, hf.nextToUse, hf.nextToAlloc, hf.head, hf.page_iff,
      ⟨fun i p hp => (hf.named.lt i p hp).trans_le hle, hf.named.inj⟩, hf.len⟩, by omega⟩

end

theorem Filling.release {r₀ : RxRing} {j : ℕ} (hf : Filling r₀ h u t j r) (hI : r₀.Inv h u t)
    (htj : t ≤ u + j) (hlt : u + j < r₀.count) :
    RxRing.Inv
      { releaseRxDesc r (slot r₀.count r₀.nextToClean (u + j)) with cleanedCount := 0 }
      h (u + j) (u + j) := by
  have hhead := hI.head_le
  unfold releaseRxDesc
  constructor
  · dsimp only
    rw [hf.count]
    exact hI.lt16
  · dsimp only
    rw [hf.count, hf.nextToClean]
    exact hI.clean_lt
  · rw [hf.head, hf.count, hf.nextToClean, hI.head]
  · rw [hf.count, hf.nextToClean]
  · rw [hf.count, hf.nextToClean]
  · omega
  · exact le_rfl
  · dsimp only
    rw [hf.count]
    exact hlt
  · intro k hk
    rw [hf.count] at hk
    rw [hf.count, hf.nextToClean, hf.page_iff k hk, max_eq_right htj]
  · exact hf.named
  · intro k hk hk'
    rw [hf.count, hf.nextToClean]
    exact hf.len k hk hk'
  · simp
  · exact zero_le _

/-- **`ixgbe_alloc_rx_buffers`**: `next_to_use` moves on by some `j` at least to `next_to_alloc`,
which it takes along. -/
theorem RxRing.Inv.refill (hI : r.Inv h u t) (alloc : ℕ → PageAlloc) {c : ℕ}
    (hc : t - u ≤ c) (hc' : c ≤ r.count - 1 - u) :
    ∃ j ≤ c, (allocRxBuffers alloc r c).nextToUse = slot r.count r.nextToClean (u + j) ∧
      RxRing.Inv { allocRxBuffers alloc r c with cleanedCount := 0 } h (u + j) (u + j) := by
  have hle := hI.use_le
  by_cases hc0 : c = 0
  · -- nothing to do, and nothing recycled
    obtain rfl : t = u := by omega
    rw [allocRxBuffers, if_pos hc0]
    exact ⟨0, zero_le _, hI.use, { hI with recycled := by simp, room := zero_le _ }⟩
  have hslot : ∀ k, slot r.count r.nextToUse k = slot r.count r.nextToClean (u + k) := by
    intro k
    rw [hI.use, slot_slot]
  obtain ⟨j, hj, ⟨hf, htj⟩, hi⟩ := walk_rule (allocMappedPage alloc) clearLength
    (n := r.count) (w := 16) (b := r.nextToUse) (c := c)
    (P := Filling r h u t) (R := fun j r' => Filling r h u t j r' ∧ t ≤ u + j)
    hI.lt16 hI.owned.use_lt
    (fun k r' hk hf hok => by
      rw [hslot] at hok
      rw [hslot, hslot, ← add_assoc]
      exact hf.step (by omega) hok)
    (fun k r' hk hf hno => by
      rw [hslot] at hno ⊢
      exact hf.stop (by omega) hno)
    (fun r' hf => ⟨hf, by omega⟩) hI.filling
  refine ⟨j, hj, ?_⟩
  rw [allocRxBuffers, if_neg hc0]
  dsimp only
  rw [← biased, hi, hslot]
  generalize (walk r.count (allocMappedPage alloc) clearLength c r r.nextToUse
    (biased 16 r.count r.nextToUse)).1 = r' at hf
  by_cases hmoved : r'.nextToUse ≠ slot r.count r.nextToClean (u + j)
  · rw [if_pos hmoved]
    exact ⟨rfl, hf.release hI htj (by omega)⟩
  · -- not moved: nothing was filled, so nothing had been recycled
    rw [if_neg hmoved]
    refine ⟨not_not.mp hmoved, ?_⟩
    rw [hf.nextToUse, hI.use, not_not] at hmoved
    obtain rfl : j = 0 := by
      have := slot_inj (by omega) (by omega) hmoved
      omega
    obtain rfl : t = u := by omega
    have hsame : releaseRxDesc r' (slot r.count r.nextToClean (t + 0)) = r' := by
      rw [releaseRxDesc, add_zero, ← hI.use, ← hf.nextToUse]
      nth_rewrite 2 [hf.nextToUse]
      rw [hI.use, ← hI.alloc, ← hf.nextToAlloc]
    have hrel := hf.release hI htj (by omega)
    rwa [hsame] at hrel

theorem RxRing.Inv.head_pos (hI : r.Inv h u t) (hlen : r.len r.nextToClean ≠ 0) : 0 < h := by
  by_contra h0
  have hzero := hI.len 0 (by omega) (zero_le _)
  rw [slot_zero hI.clean_lt] at hzero
  exact hlen hzero

theorem RxRing.Inv.advance (hI : r.Inv h u t) (hh : 0 < h) {page : ℕ → Option ℕ} {skb : ℕ → Bool}
    {nta t' : ℕ} (hgone : page r.nextToClean = none) (hkept : ∀ k, 0 < k → k < r.count →
      ((page (slot r.count r.nextToClean k)).isSome = true ↔ k ≤ t'))
    (halloc : nta = slot r.count r.nextToClean (t' + 1)) (hle : u ≤ t' + 1) (hlt : t' < r.count)
    (hrec : t' + 1 - u ≤ r.cleanedCount + 1) (hnamed : PagesNamed r.count r.pages page) :
    RxRing.Inv
      { r with
        nextToClean := next r.count r.nextToClean, nextToAlloc := nta, page := page, skb := skb
        cleanedCount := r.cleanedCount + 1 }
      (h - 1) (u - 1) t' := by
  have hhead := hI.head_le
  have huse := hI.use_le
  have htlt := hI.alloc_lt
  have hroom := hI.room
  have hback : ∀ k, 0 < k → slot r.count (next r.count r.nextToClean) (k - 1) =
      slot r.count r.nextToClean k := by
    intro k hk
    rw [slot_next hI.clean_lt, Nat.sub_add_cancel hk]
  constructor
  · exact hI.lt16
  · dsimp only
    rw [next_eq_slot hI.clean_lt]
    exact slot_lt hI.pos _ _
  · exact hI.head.trans (hback h hh).symm
  · exact hI.use.trans (hback u (by omega)).symm
  · exact halloc.trans (slot_next hI.clean_lt t').symm
  · omega
  · omega
  · exact hlt
  · intro k hk
    dsimp only at hk ⊢
    rw [slot_next hI.clean_lt]
    by_cases hlast : k + 1 = r.count
    · -- all the way round is the slot just left
      rw [hlast, slot_self hI.clean_lt, hgone]
      simp only [Option.isSome_none, Bool.false_eq_true, false_iff]
      omega
    · rw [hkept (k + 1) (by omega) (by omega)]
      omega
  · exact hnamed
  · intro k hk hk'
    rw [slot_next hI.clean_lt]
    exact hI.len (k + 1) (by omega) (by omega)
  · dsimp only
    omega
  · dsimp only
    omega

theorem isNonEop_eq (r : RxRing) :
    ∃ skb, isNonEop r = { r with nextToClean := next r.count r.nextToClean, skb := skb } := by
  unfold isNonEop
  split_ifs
  · exact ⟨r.skb, rfl⟩
  · exact ⟨_, rfl⟩

section

variable (hI : r.Inv h u t)

include hI

theorem RxRing.Inv.slot_ne_clean {k : ℕ} (hk : 0 < k) (hlt : k < r.count) :
    slot r.count r.nextToClean k ≠ r.nextToClean := by
  nth_rewrite 2 [← slot_zero hI.clean_lt]
  exact slot_ne hlt hI.pos (by omega)

theorem RxRing.Inv.drop (hh : 0 < h) :
    RxRing.Inv (isNonEop { putRxBuffer false r with cleanedCount := r.cleanedCount + 1 })
      (h - 1) (u - 1) (t - 1) := by
  have hhead := hI.head_le
  have huse := hI.use_le
  have hlt := hI.alloc_lt
  have hrec := hI.recycled
  obtain ⟨skb, heq⟩ := isNonEop_eq { putRxBuffer false r with cleanedCount := r.cleanedCount + 1 }
  rw [heq]
  refine hI.advance hh (update_self ..) (fun k hk hk' => ?_) ?_ (by omega) (by omega)
    (by omega) (hI.named.drop r.nextToClean)
  · change (update r.page r.nextToClean none _).isSome = true ↔ _
    rw [update_of_ne (hI.slot_ne_clean hk hk'), hI.page_iff k hk']
    omega
  · rw [Nat.sub_add_cancel (by omega)]
    exact hI.alloc

theorem RxRing.Inv.reuse (hh : 0 < h) :
    RxRing.Inv (isNonEop { putRxBuffer true r with cleanedCount := r.cleanedCount + 1 })
      (h - 1) (u - 1) t := by
  have huse := hI.use_le
  have hlt := hI.alloc_lt
  have hrec := hI.recycled
  obtain ⟨skb, heq⟩ := isNonEop_eq { putRxBuffer true r with cleanedCount := r.cleanedCount + 1 }
  rw [heq]
  refine hI.advance hh (update_self ..) (fun k hk hk' => ?_) ?_ (by omega) hlt (by omega)
    (hI.named.move hI.clean_lt r.nextToAlloc)
  · change (update (update r.page r.nextToAlloc (r.page r.nextToClean))
      r.nextToClean none _).isSome = true ↔ _
    rw [update_of_ne (hI.slot_ne_clean hk hk'), hI.alloc]
    by_cases hkt : k = t
    · -- the slot that gets the page
      have hfirst := hI.page_iff 0 hI.pos
      rw [slot_zero hI.clean_lt] at hfirst
      rw [hkt, update_self, hfirst]
      omega
    · rw [update_of_ne (slot_ne hk' hlt hkt), hI.page_iff k hk']
      omega
  · change next r.count r.nextToAlloc = _
    rw [hI.alloc, next_slot hI.pos]

theorem RxRing.Inv.writeBack (hne : r.head ≠ r.nextToUse) (len : ℕ) (eop : Bool) :
    RxRing.Inv
      { r with
        len := update r.len r.head (len + 1), eop := update r.eop r.head eop
        head := next r.count r.head } (h + 1) u t := by
  have hlt : h < u := by
    refine lt_of_le_of_ne hI.head_le fun heq => hne ?_
    rw [hI.head, hI.use, heq]
  have huse := hI.use_le
  have halloc := hI.alloc_lt
  refine { hI with head := ?_, head_le := hlt, len := fun k hk hk' => ?_ }
  · dsimp only
    rw [hI.head, next_slot hI.pos]
  · dsimp only
    rw [hI.head, update_of_ne (slot_ne (by omega) (by omega) (by omega))]
    exact hI.len k (by omega) hk'

theorem RxRing.Inv.step (e : RxEvent) : r.StepSafe e ∧ ∃ h' u' t', (rxStep r e).Inv h' u' t' := by
  have huse := hI.use_le
  have hlt := hI.alloc_lt
  cases e with
  | irq =>
    refine ⟨trivial, h, u, t, { hI with recycled := ?_, room := ?_ }⟩
    · dsimp only [rxStep]
      rw [hI.use, descUnused_slot hI.lt16 hI.clean_lt (by omega)]
      omega
    · dsimp only [rxStep]
      rw [hI.use, descUnused_slot hI.lt16 hI.clean_lt (by omega)]
  | refill alloc =>
    rw [RxRing.StepSafe, rxStep]
    split
    case isTrue hc =>
      have hroom := hI.room
      obtain ⟨j, hj, hntu, hI'⟩ := hI.refill alloc hI.recycled hroom
      refine ⟨fun hmoved hc => ?_, h, u + j, u + j, hI'⟩
      -- back at `next_to_clean` it would not have moved at all
      rw [hntu] at hmoved hc
      by_cases h0 : u + j = 0
      · rw [h0, hI.use, show u = 0 by omega] at hmoved
        exact hmoved rfl
      · exact hI.slot_ne_clean (Nat.pos_of_ne_zero h0) (by omega) hc
    · exact ⟨fun hmoved => absurd rfl hmoved, h, u, t, hI⟩
  | clean built reuse =>
    refine ⟨?_, ?_⟩
    · cases reuse with
      | false => trivial
      | true =>
        intro _ _
        have hempty := hI.page_iff t hlt
        rw [← hI.alloc] at hempty
        exact Option.not_isSome_iff_eq_none.mp fun hsome => lt_irrefl _ (hempty.mp hsome)
    · rw [rxStep]
      split
      · exact ⟨h, u, t, hI⟩
      rename_i hlen
      split
      · exact ⟨h, u, t, hI⟩
      cases reuse with
      | false => exact ⟨h - 1, u - 1, t - 1, hI.drop (hI.head_pos hlen)⟩
      | true => exact ⟨h - 1, u - 1, t, hI.reuse (hI.head_pos hlen)⟩
  | writeBack len eop =>
    refine ⟨trivial, ?_⟩
    rw [rxStep]
    split
    · exact ⟨h, u, t, hI⟩
    case isFalse hne =>
      exact ⟨h + 1, u, t, hI.writeBack hne len eop⟩

end

theorem RxRing.Fresh.inv (hF : r.Fresh) (alloc : ℕ → PageAlloc) :
    ∃ u, (fillRxRing alloc r).Inv 0 u u := by
  have hslot : slot r.count r.nextToClean 0 = 0 := by
    rw [hF.nextToClean]
    exact slot_zero hF.pos
  have hunused : descUnused r.count r.nextToClean r.nextToUse = r.count - 1 := by
    have hlt := hF.lt
    rw [descUnused, hF.nextToClean, hF.nextToUse, if_neg (by omega)]
    omega
  have hI : r.Inv 0 0 0 := by
    refine ⟨hF.lt, ?_, ?_, ?_, ?_, le_rfl, le_rfl, hF.pos, fun k _ => ?_, ⟨fun i p hp => ?_, ?_⟩,
      fun k _ hk => ?_, zero_le _, ?_⟩
    · exact hF.nextToClean ▸ hF.pos
    · exact hF.head.trans hslot.symm
    · exact hF.nextToUse.trans hslot.symm
    · exact hF.nextToAlloc.trans hslot.symm
    · simp [hF.page]
    · exact absurd hp (by simp [hF.page])
    · intro i _ j _ p hp
      exact absurd hp (by simp [hF.page])
    · obtain rfl := le_zero.mp hk
      exact (congrArg r.len hslot).trans hF.len
    · rw [hF.cleanedCount]
      exact zero_le _
  obtain ⟨j, -, -, hI'⟩ := hI.refill alloc (c := r.count - 1) (zero_le _) le_rfl
  rw [zero_add] at hI'
  refine ⟨j, ?_⟩
  rw [fillRxRing, hunused]
  exact hI'

end

/-- **Page ownership over whole runs**: no step stores a page over another or moves `next_to_use`
onto `next_to_clean`. -/
theorem rx_pages_owned (r : RxRing) (hF : r.Fresh) (alloc : ℕ → PageAlloc) (es : List RxEvent) :
    (fillRxRing alloc r).Owned ∧ After rxStep RxRing.Owned (fillRxRing alloc r) es ∧
      Along rxStep RxRing.StepSafe (fillRxRing alloc r) es := by
  obtain ⟨u, hI⟩ := hF.inv alloc
  have hstart : ∃ h u t, (fillRxRing alloc r).Inv h u t := ⟨0, u, u, hI⟩
  have hstep : ∀ (r : RxRing) (e : RxEvent), (∃ h u t, r.Inv h u t) →
      r.StepSafe e ∧ ∃ h u t, (rxStep r e).Inv h u t := by
    rintro r e ⟨h, u, t, hI⟩
    exact hI.step e
  have hall : Along rxStep (fun _ _ => True) (fillRxRing alloc r) es :=
    along_of_forall _ es fun _ _ => trivial
  refine ⟨hI.owned, ?_, ?_⟩
  · refine after_of_inv (fun r e hr _ => (hstep r e hr).2) (fun r hr => ?_) hstart hall
    obtain ⟨h, u, t, hI⟩ := hr
    exact hI.owned
  · refine (along_iff_along (fun _ _ => True) (fun r e hr _ _ => (hstep r e hr).2)
      (fun r e hr _ => ?_) hstart hall).mpr hall
    exact iff_true_intro (hstep r e hr).1

def freshRxRing : RxRing where
  count := 8
  nextToClean := 0
  nextToUse := 0
  nextToAlloc := 0
  page := fun _ => none
  skb := fun _ => false
  len := fun i => if i = 0 then 0 else 60
  eop := fun _ => true
  cleanedCount := 0
  head := 0
  pages := 0

theorem rx_pages_owned_eight :
    (fillRxRing (fun i => if i = 6 then .noMapping else .ok) freshRxRing).Owned ∧
      After rxStep RxRing.Owned
        (fillRxRing (fun i => if i = 6 then .noMapping else .ok) freshRxRing)
        [.writeBack 99 false, .writeBack 9 true, .irq, .clean true true, .clean true false] ∧
      Along rxStep RxRing.StepSafe
        (fillRxRing (fun i => if i = 6 then .noMapping else .ok) freshRxRing)
        [.writeBack 99 false, .writeBack 9 true, .irq, .clean true true, .clean true false] :=
  rx_pages_owned freshRxRing
    ⟨by decide, by decide, rfl, rfl, rfl, rfl, fun _ => rfl, rfl, rfl⟩ _ _

end Ixgbe
