import Ixgbe.Hw.Basic
import Ixgbe.Library.EventRun
import Ixgbe.Library.IndexedTable

/-! # FCoE direct data placement

`ixgbe_fcoe_ddp_setup` maps a list and takes a block, `ixgbe_fcoe_ddp_put` gives both back, and
`ixgbe_fcoe_ddp` unmaps the list at the response. -/

namespace Ixgbe

open EventRun IndexedTable Multiset Option

/-- Lists, blocks and pools are numbers, `none` is `NULL`. -/
structure DdpContext where
  len : ℕ
  err : ℕ
  sgc : ℕ
  sgl : Option ℕ
  udl : Option ℕ
  pool : Option ℕ
  deriving DecidableEq, Repr

def DdpContext.clear (c : DdpContext) : DdpContext :=
  { c with len := 0, err := 1, udl := none, sgl := none, sgc := 0 }

/-- The registers of one exchange; `fcptr` is the block whose bus address is in `FCPTRL` and
`FCPTRH`. -/
structure DdpRegs where
  fcptr : ℕ
  fcbuff : U32
  fcdmarw : U32
  fcflt : U32
  fcfltrw : U32

/-- The entries written to each block, the registers of each exchange, and the target mode. -/
structure DdpHw where
  entries : ℕ → List ℕ
  regs : ℕ → DdpRegs
  target : Bool
  fcrxctrl : U32

/-- The contexts, the hardware and, not in the source, the accounts, latest entry first. -/
structure Fcoe where
  ddp : ℕ → DdpContext
  hw : DdpHw
  mapped : List (ℕ × ℕ)
  unmapped : List (Option ℕ × ℕ)
  taken : List (ℕ × ℕ)
  returned : List (Option ℕ × ℕ)

structure FcoeCfg where
  mac : MacType
  ddpPool : Bool
  extraDdpBufferDma : ℕ

section

variable (cfg : FcoeCfg) (s : Fcoe)

def FcoeCfg.ddpMax : ℕ := if cfg.mac = .macX550 then 2048 else 512

def FcoeCfg.ddpXid : ℕ := cfg.ddpMax - 1

def Fcoe.setDdp (xid : ℕ) (c : DdpContext) : Fcoe :=
  { s with ddp := Function.update s.ddp xid c }

def Fcoe.mapSg (sgl sgc : ℕ) : Fcoe := { s with mapped := (sgl, sgc) :: s.mapped }

def Fcoe.unmapSg (sgl : Option ℕ) (sgc : ℕ) : Fcoe :=
  { s with unmapped := (sgl, sgc) :: s.unmapped }

/-- The blocks are numbered in the order in which they are taken. -/
def Fcoe.poolAlloc (pool : ℕ) : Fcoe :=
  { s with taken := (pool, s.taken.length) :: s.taken }

def Fcoe.poolFree (pool : Option ℕ) (udl : ℕ) : Fcoe :=
  { s with returned := (pool, udl) :: s.returned }

def buffcntMax : ℕ := 256

def bufflen : ℕ := 4096

/-- The loop over the scatter list, and the entries of `udl` so far. -/
structure DdpLoop where
  j : ℕ := 0
  udl : List ℕ := []
  firstoff : ℕ := 0
  thisoff : ℕ := 0
  thislen : ℕ := 0

/-- `none` is `out_noddp_free`. The fuel lasts. -/
def ddpSegment (last : Bool) : ℕ → ℕ → ℕ → DdpLoop → Option DdpLoop
  | _, _, 0, l => some l
  | 0, _, _ + 1, _ => none
  | fuel + 1, addr, len + 1, l =>
    if l.j ≥ buffcntMax then none
    else
      let thisoff := addr % bufflen
      let thislen := min (bufflen - thisoff) (len + 1)
      if l.j ≠ 0 ∧ thisoff ≠ 0 then none
      else if (last = false ∨ thislen ≠ len + 1) ∧ thislen + thisoff ≠ bufflen then none
      else ddpSegment last fuel (addr + thislen) (len + 1 - thislen)
        { j := l.j + 1
          udl := l.udl ++ [addr - thisoff]
          firstoff := if l.j = 0 then thisoff else l.firstoff
          thisoff := thisoff
          thislen := thislen }

def ddpSegments : List (ℕ × ℕ) → DdpLoop → Option DdpLoop
  | [], l => some l
  | (addr, len) :: segs, l =>
    match ddpSegment segs.isEmpty (buffcntMax + 1) addr len l with
    | none => none
    | some l => ddpSegments segs l

/-- The entries, their number, the offset in the first buffer, and the size of the last. -/
structure DdpProgram where
  udl : List ℕ
  j : ℕ
  firstoff : ℕ
  lastsize : ℕ

/-- `none` is `out_noddp_free`. -/
def ddpProgram (extra : ℕ) (segs : List (ℕ × ℕ)) : Option DdpProgram :=
  match ddpSegments segs {} with
  | none => none
  | some l =>
    if l.thisoff + l.thislen = bufflen then
      if l.j ≥ buffcntMax then none else some ⟨l.udl ++ [extra], l.j + 1, l.firstoff, 1⟩
    else some ⟨l.udl, l.j, l.firstoff, l.thisoff + l.thislen⟩

/-- With buffers of 4 KB, and `WRCONTX` in target mode. -/
def DdpProgram.fcbuff (p : DdpProgram) (targetMode : Bool) : U32 :=
  (0 : U32) <<< 3 ||| (BitVec.ofNat 32 p.j &&& 0xff) <<< 8 ||| BitVec.ofNat 32 p.firstoff <<< 16 |||
    (if targetMode then 0x80 else 0) ||| 1

def DdpProgram.fcdmarw (p : DdpProgram) (xid : ℕ) : U32 :=
  BitVec.ofNat 32 xid ||| (0x4000 : U32) ||| BitVec.ofNat 32 p.lastsize <<< 16

/-- Directly on the X550, elsewhere by `FCDMARW` and `FCFLTRW`. The last header of a sequence is
asked for with the first target. -/
def DdpHw.program (h : DdpHw) (xid block : ℕ) (p : DdpProgram) (targetMode : Bool) : DdpHw where
  entries := Function.update h.entries block p.udl
  regs := Function.update h.regs xid
    ⟨block, p.fcbuff targetMode, p.fcdmarw xid, 1, BitVec.ofNat 32 xid ||| (0x4000 : U32)⟩
  target := h.target || targetMode
  fcrxctrl := if targetMode && !h.target then h.fcrxctrl ||| 0x8 else h.fcrxctrl

/-- The context is read back at the end. -/
def DdpHw.invalidate (h : DdpHw) (xid : ℕ) : DdpHw :=
  { h with
    regs := Function.update h.regs xid ⟨(h.regs xid).fcptr, 0,
      BitVec.ofNat 32 xid ||| (0x8000 : U32), 0, BitVec.ofNat 32 xid ||| (0x4000 : U32)⟩ }

/-- A call with what it finds; no segments if `dma_map_sg` fails. -/
structure DdpSetup where
  xid : ℕ
  sgl : Option ℕ
  sgc : ℕ
  down : Bool
  pool : Option ℕ
  segs : List (ℕ × ℕ)
  alloc : Bool
  targetMode : Bool

/-- What a refused set-up wrote to the block that it gives back is left out. -/
def ddpSetupCleared (q : DdpSetup) (sgl : ℕ) : ℕ × Fcoe :=
  if cfg.ddpPool = false then (0, s)
  else match q.pool with
    | none => (0, s)
    | some pool =>
      if q.segs = [] then (0, s)
      else
        let s := s.mapSg sgl q.sgc
        -- out_noddp_unmap
        if q.alloc = false then (0, s.unmapSg (some sgl) q.sgc)
        else
          let udl := s.taken.length
          let s := s.poolAlloc pool
          let c :=
            { s.ddp q.xid with udl := some udl, pool := some pool, sgl := some sgl, sgc := q.sgc }
          match ddpProgram cfg.extraDdpBufferDma q.segs with
          -- out_noddp_free
          | none =>
            (0, (((s.setDdp q.xid c).poolFree c.pool udl).setDdp q.xid c.clear).unmapSg
              (some sgl) q.sgc)
          | some p =>
            (1, { s.setDdp q.xid c with hw := s.hw.program q.xid udl p q.targetMode })

def DdpSetup.Admitted (q : DdpSetup) : Prop :=
  q.sgl ≠ none ∧ q.sgc ≠ 0 ∧ q.xid ≤ cfg.ddpXid ∧ q.down = false

instance (cfg : FcoeCfg) (q : DdpSetup) : Decidable (q.Admitted cfg) :=
  inferInstanceAs (Decidable (_ ∧ _))

def fcoeDdpSetup (q : DdpSetup) : ℕ × Fcoe :=
  if q.Admitted cfg then
    if (s.ddp q.xid).sgl ≠ none then (0, s)
    else ddpSetupCleared cfg (s.setDdp q.xid (s.ddp q.xid).clear) q (q.sgl.getD 0)
  else (0, s)

def fcoeDdpPut (xid : ℕ) : ℕ × Fcoe :=
  if xid > cfg.ddpXid then (0, s)
  else match (s.ddp xid).udl with
    | none => (0, s)
    | some udl =>
      let c := s.ddp xid
      let s := { s with hw := if c.err ≠ 0 then s.hw.invalidate xid else s.hw }
      let s := if c.sgl ≠ none then s.unmapSg c.sgl c.sgc else s
      let s :=
        if c.pool ≠ none then (s.poolFree c.pool udl).setDdp xid { c with pool := none } else s
      (c.len, s.setDdp xid (s.ddp xid).clear)

inductive FcStat
  | nomtch
  | noddp
  | fcprsp
  | ddp
  deriving DecidableEq, Repr

structure FcoeDesc where
  /-- `FC_FC_EX_CTX`: the exchange is that of the originator. -/
  exCtx : Bool
  oxId : BitVec 16
  rxId : BitVec 16
  ddpErr : Bool
  fcstat : FcStat
  rss : ℕ

def FcoeDesc.xid (d : FcoeDesc) : ℕ := if d.exCtx then d.oxId.toNat else d.rxId.toNat

def fcoeDdp (d : FcoeDesc) : ℤ × Fcoe :=
  if d.xid ≥ cfg.ddpMax then (eInval, s)
  else
    let c := s.ddp d.xid
    if c.udl = none then (eInval, s)
    else if d.ddpErr then (eInval, s)
    else match d.fcstat with
      | .ddp => (0, s.setDdp d.xid { c with len := d.rss })
      -- unmap the list when the response is received
      | .fcprsp =>
        (if d.rss ≠ 0 then d.rss else eInval,
          (s.unmapSg c.sgl c.sgc).setDdp d.xid
            { c with err := 0, sgl := none, sgc := 0, len := d.rss })
      | .noddp => (if d.rss ≠ 0 then d.rss else eInval, s.setDdp d.xid { c with len := d.rss })
      | .nomtch => (eInval, s)

def freeFcoeDdpResources : Fcoe :=
  if cfg.ddpPool = false then s
  else (List.range cfg.ddpMax).foldl (fun s xid => (fcoeDdpPut cfg s xid).2) s

inductive FcoeEvent
  | setup (q : DdpSetup)
  | desc (d : FcoeDesc)
  | put (xid : ℕ)

def fcoeStep : FcoeEvent → Fcoe
  | .setup q => (fcoeDdpSetup cfg s q).2
  | .desc d => (fcoeDdp cfg s d).2
  | .put xid => (fcoeDdpPut cfg s xid).2

def DdpContext.mapping (c : DdpContext) : Option (Option ℕ × ℕ) :=
  c.sgl.map fun l => (some l, c.sgc)

def DdpContext.block (c : DdpContext) : Option (Option ℕ × ℕ) := c.udl.map fun b => (c.pool, b)

def single {β : Type} (o : Option β) : Multiset β := o.elim 0 fun b => {b}

/-- A call with its list, or a block with its pool. -/
def tagged (l : List (ℕ × ℕ)) : Multiset (Option ℕ × ℕ) :=
  ((l.map fun m => (some m.1, m.2) : List (Option ℕ × ℕ)) : Multiset (Option ℕ × ℕ))

/-- **The accounts**, with the unmaps without a list, and the blocks no context knows. -/
structure Fcoe.Ledger (cfg : FcoeCfg) (s : Fcoe) (nulls leaked : Multiset (Option ℕ × ℕ)) :
    Prop where
  maps : tagged s.mapped + nulls = s.unmapped + contents cfg.ddpMax DdpContext.mapping s.ddp
  blocks : tagged s.taken = s.returned + contents cfg.ddpMax DdpContext.block s.ddp + leaked
  udl_of_sgl : ∀ xid, (s.ddp xid).sgl ≠ none → (s.ddp xid).udl ≠ none
  pool_of_udl : ∀ xid, (s.ddp xid).udl ≠ none → (s.ddp xid).pool ≠ none
  ddpPool : ∀ xid, (s.ddp xid).udl ≠ none → cfg.ddpPool = true
  beyond : ∀ xid ≥ cfg.ddpMax, (s.ddp xid).udl = none

/-- Each mapping is undone once, and each block is back in its pool. -/
structure Fcoe.Settled (s : Fcoe) : Prop where
  maps : tagged s.mapped = s.unmapped
  ne_null : ∀ u ∈ s.unmapped, u.1 ≠ none
  blocks : tagged s.taken = s.returned

/-- A response to an exchange whose list is unmapped already. -/
def FcoeEvent.nulls : FcoeEvent → Multiset (Option ℕ × ℕ)
  | .desc d =>
    if d.xid < cfg.ddpMax ∧ (s.ddp d.xid).udl ≠ none ∧ d.ddpErr = false ∧ d.fcstat = .fcprsp ∧
        (s.ddp d.xid).sgl = none then
      {(none, (s.ddp d.xid).sgc)}
    else 0
  | _ => 0

/-- The block of a context which is set up again. -/
def FcoeEvent.leaks : FcoeEvent → Multiset (Option ℕ × ℕ)
  | .setup q =>
    if q.Admitted cfg ∧ (s.ddp q.xid).sgl = none then single (s.ddp q.xid).block else 0
  | _ => 0

/-- **The events that keep the accounts.** -/
def FcoeEvent.Ok : FcoeEvent → Prop
  | .setup q => q.Admitted cfg → (s.ddp q.xid).sgl = none → (s.ddp q.xid).udl = none
  | .desc d => d.xid < cfg.ddpMax → d.ddpErr = false → d.fcstat = .fcprsp →
      (s.ddp d.xid).sgl = none → (s.ddp d.xid).udl = none
  | .put _ => True

end

theorem single_eq_zero_iff {β : Type} (o : Option β) : single o = 0 ↔ o = none := by
  cases o <;> simp [single]

open DdpContext

theorem FcoeEvent.ok_iff (cfg : FcoeCfg) (s : Fcoe) (e : FcoeEvent) :
    e.Ok cfg s ↔ e.nulls cfg s = 0 ∧ e.leaks cfg s = 0 := by
  cases e with
  | setup q =>
    simp only [FcoeEvent.Ok, nulls, leaks, true_and]
    split
    case isTrue h =>
      rw [single_eq_zero_iff, block, map_eq_none_iff]
      exact ⟨fun hok => hok h.1 h.2, fun hnone _ _ => hnone⟩
    case isFalse h =>
      exact iff_of_true (fun h1 h2 => absurd ⟨h1, h2⟩ h) rfl
  | desc d =>
    simp only [FcoeEvent.Ok, nulls, leaks, and_true]
    split
    case isTrue h =>
      obtain ⟨hx, hudl, herr, hstat, hsgl⟩ := h
      exact iff_of_false (fun hok => hudl (hok hx herr hstat hsgl)) (singleton_ne_zero _)
    case isFalse h =>
      refine iff_of_true (fun hx herr hstat hsgl => ?_) rfl
      by_contra hudl
      exact h ⟨hx, hudl, herr, hstat, hsgl⟩
  | put xid => exact iff_of_true trivial ⟨rfl, rfl⟩

section

variable {cfg : FcoeCfg} {s : Fcoe} {N L : Multiset (Option ℕ × ℕ)}

theorem tagged_append (l l' : List (ℕ × ℕ)) : tagged (l ++ l') = tagged l + tagged l' := by
  rw [tagged, List.map_append, ← coe_add]
  rfl

theorem lt_ddpMax {xid : ℕ} (h : xid ≤ cfg.ddpXid) : xid < cfg.ddpMax := by
  have hpos : 0 < cfg.ddpMax := by
    unfold FcoeCfg.ddpMax
    split <;> decide
  unfold FcoeCfg.ddpXid at h
  omega

/-- **The rule for a change of one context.** -/
theorem Fcoe.Ledger.update (h : s.Ledger cfg N L) {xid : ℕ} (hx : xid < cfg.ddpMax)
    {c : DdpContext} {m t : List (ℕ × ℕ)} {u r : List (Option ℕ × ℕ)}
    {n l : Multiset (Option ℕ × ℕ)} {w : DdpHw}
    (hmaps : tagged m + n + single (s.ddp xid).mapping = u + single c.mapping)
    (hblocks : tagged t + single (s.ddp xid).block = r + single c.block + l)
    (hudl : c.sgl ≠ none → c.udl ≠ none)
    (hpool : c.udl ≠ none → c.pool ≠ none ∧ cfg.ddpPool = true) :
    Fcoe.Ledger cfg
      { ddp := Function.update s.ddp xid c
        hw := w
        mapped := m ++ s.mapped
        unmapped := u ++ s.unmapped
        taken := t ++ s.taken
        returned := r ++ s.returned } (N + n) (L + l) := by
  obtain ⟨restM, hm, hm'⟩ := contents_update (k := mapping) (f := s.ddp) hx c
  obtain ⟨restB, hb, hb'⟩ := contents_update (k := block) (f := s.ddp) hx c
  refine ⟨?_, ?_, ?_, ?_, ?_, fun y hy => ?_⟩
  · have hold := h.maps
    rw [hm] at hold
    rw [tagged_append, hm', ← coe_add]
    calc tagged m + tagged s.mapped + (N + n)
        = tagged m + n + (tagged s.mapped + N) := by ac_rfl
      _ = tagged m + n + (s.unmapped + (single (s.ddp xid).mapping + restM)) := by rw [hold]; rfl
      _ = tagged m + n + single (s.ddp xid).mapping + (s.unmapped + restM) := by ac_rfl
      _ = u + single c.mapping + (s.unmapped + restM) := by rw [hmaps]
      _ = u + s.unmapped + (single c.mapping + restM) := by ac_rfl
  · have hold := h.blocks
    rw [hb] at hold
    rw [tagged_append, hb', ← coe_add, hold]
    calc tagged t + (s.returned + (single (s.ddp xid).block + restB) + L)
        = tagged t + single (s.ddp xid).block + (s.returned + restB + L) := by ac_rfl
      _ = r + single c.block + l + (s.returned + restB + L) := by rw [hblocks]
      _ = r + s.returned + (single c.block + restB) + (L + l) := by ac_rfl
  · exact (Function.forall_update_iff s.ddp fun _ c => c.sgl ≠ none → c.udl ≠ none).mpr
      ⟨hudl, fun y _ => h.udl_of_sgl y⟩
  · exact (Function.forall_update_iff s.ddp fun _ c => c.udl ≠ none → c.pool ≠ none).mpr
      ⟨fun hne => (hpool hne).1, fun y _ => h.pool_of_udl y⟩
  · exact (Function.forall_update_iff s.ddp fun _ c => c.udl ≠ none → cfg.ddpPool = true).mpr
      ⟨fun hne => (hpool hne).2, fun y _ => h.ddpPool y⟩
  · have hne : y ≠ xid := by omega
    simpa [hne] using h.beyond y hy

section

variable (h : s.Ledger cfg N L)

include h

theorem Fcoe.Ledger.setup {q : DdpSetup} (hx : q.xid < cfg.ddpMax)
    (hsgl : (s.ddp q.xid).sgl = none) (sgl : ℕ) :
    (ddpSetupCleared cfg (s.setDdp q.xid (s.ddp q.xid).clear) q sgl).2.Ledger cfg N
      (L + single (s.ddp q.xid).block) := by
  have hmapping : (s.ddp q.xid).mapping = none := by rw [mapping, hsgl]; rfl
  have hadd : N + 0 = N := add_zero N
  have hclear : (s.setDdp q.xid (s.ddp q.xid).clear).Ledger cfg N
      (L + single (s.ddp q.xid).block) := by
    rw [← hadd]
    refine h.update hx (c := (s.ddp q.xid).clear) (m := []) (t := []) (u := [])
      (r := []) ?_ ?_ ?_ ?_
    · rw [hmapping]; rfl
    · rw [show tagged [] = 0 from rfl, zero_add]
      exact (zero_add _).symm
    · exact fun hne => absurd rfl hne
    · exact fun hne => absurd rfl hne
  unfold ddpSetupCleared
  split
  · exact hclear
  rename_i hpools
  cases q.pool with
  | none => exact hclear
  | some pool =>
    dsimp only
    split
    · exact hclear
    rw [← hadd]
    split
    · refine h.update hx (c := (s.ddp q.xid).clear) (m := [(sgl, q.sgc)]) (t := [])
        (u := [(some sgl, q.sgc)]) (r := []) ?_ ?_ ?_ ?_
      · rw [hmapping]; rfl
      · rw [show tagged [] = 0 from rfl, zero_add]
        exact (zero_add _).symm
      · exact fun hne => absurd rfl hne
      · exact fun hne => absurd rfl hne
    have hpool : cfg.ddpPool = true := (Bool.not_eq_false _).mp hpools
    cases ddpProgram cfg.extraDdpBufferDma q.segs with
    | none =>
      have hstep := h.update hx (c := { (s.ddp q.xid).clear with pool := some pool })
        (m := [(sgl, q.sgc)]) (t := [(pool, s.taken.length)]) (u := [(some sgl, q.sgc)])
        (r := [(some pool, s.taken.length)]) (n := 0) (l := single (s.ddp q.xid).block) (w := s.hw)
        (by rw [hmapping]; rfl) rfl (fun hne => absurd rfl hne) (fun hne => absurd rfl hne)
      simpa [setDdp, poolFree, unmapSg, mapSg, poolAlloc, clear] using hstep
    | some p =>
      have hstep := h.update hx
        (c := { (s.ddp q.xid).clear with
          udl := some s.taken.length, pool := some pool, sgl := some sgl, sgc := q.sgc })
        (m := [(sgl, q.sgc)]) (t := [(pool, s.taken.length)]) (u := []) (r := []) (n := 0)
        (l := single (s.ddp q.xid).block)
        (w := s.hw.program q.xid s.taken.length p q.targetMode) (by rw [hmapping]; rfl)
        (by rw [show (([] : List (Option ℕ × ℕ)) : Multiset (Option ℕ × ℕ)) = 0 from rfl, zero_add]
            rfl)
        (fun _ => some_ne_none _) (fun _ => ⟨some_ne_none _, hpool⟩)
      simpa [setDdp, mapSg, poolAlloc] using hstep

theorem Fcoe.Ledger.put (xid : ℕ) :
    (fcoeDdpPut cfg s xid).2.Ledger cfg N L ∧ ((fcoeDdpPut cfg s xid).2.ddp xid).udl = none ∧
      ∀ y ≠ xid, (fcoeDdpPut cfg s xid).2.ddp y = s.ddp y := by
  unfold fcoeDdpPut
  split
  case isTrue hxid =>
    refine ⟨h, h.beyond xid ?_, fun _ _ => rfl⟩
    unfold FcoeCfg.ddpXid at hxid
    omega
  rename_i hxid
  have hx : xid < cfg.ddpMax := lt_ddpMax (Nat.not_lt.mp hxid)
  cases hudl : (s.ddp xid).udl with
  | none => exact ⟨h, hudl, fun _ _ => rfl⟩
  | some udl =>
    obtain ⟨pool, hpool⟩ := ne_none_iff_exists'.mp
      (h.pool_of_udl xid (by rw [hudl]; exact some_ne_none udl))
    have hblock : (s.ddp xid).block = some (some pool, udl) := by
      rw [block, hudl, hpool]
      rfl
    have hpool' : (s.ddp xid).pool ≠ none := by
      rw [hpool]
      exact some_ne_none pool
    dsimp only
    refine ⟨?_, ?_, fun y hy => ?_⟩
    · generalize (if (s.ddp xid).err ≠ 0 then s.hw.invalidate xid else s.hw) = hw
      cases hsgl : (s.ddp xid).sgl with
      | none =>
        have hstep := h.update hx (c := { (s.ddp xid).clear with pool := none }) (m := []) (t := [])
          (u := []) (r := [(some pool, udl)]) (n := 0) (l := 0) (w := hw)
          (by rw [mapping, hsgl]; rfl) (by rw [hblock]; rfl) (fun hne => absurd rfl hne)
          (fun hne => absurd rfl hne)
        simpa [hpool, setDdp, poolFree, clear] using hstep
      | some sgl =>
        have hstep := h.update hx (c := { (s.ddp xid).clear with pool := none }) (m := []) (t := [])
          (u := [(some sgl, (s.ddp xid).sgc)]) (r := [(some pool, udl)]) (n := 0) (l := 0) (w := hw)
          (by rw [mapping, hsgl]; rfl) (by rw [hblock]; rfl) (fun hne => absurd rfl hne)
          (fun hne => absurd rfl hne)
        simpa [hpool, setDdp, poolFree, unmapSg, clear] using hstep
    · simp [setDdp, clear]
    · rw [if_pos hpool']
      split <;> simp [setDdp, poolFree, unmapSg, hy]

theorem Fcoe.Ledger.desc (d : FcoeDesc) :
    (fcoeDdp cfg s d).2.Ledger cfg (N + (FcoeEvent.desc d).nulls cfg s) L := by
  have hsame : ∀ {c : Prop} [Decidable c] (v : Multiset (Option ℕ × ℕ)), ¬ c →
      N + (if c then v else 0) = N := by
    intro c _ v hc
    rw [if_neg hc, add_zero]
  unfold fcoeDdp FcoeEvent.nulls
  split
  case isTrue hx =>
    rw [hsame _ fun hc => absurd hc.1 (Nat.not_lt.mpr hx)]
    exact h
  rename_i hx
  dsimp only
  split
  case isTrue hudl =>
    rw [hsame _ fun hc => hc.2.1 hudl]
    exact h
  rename_i hudl
  split
  case isTrue herr =>
    rw [hsame _ fun hc => by rw [herr] at hc; exact absurd hc.2.2.1 (by decide)]
    exact h
  rename_i herr
  have hlen : (s.setDdp d.xid { s.ddp d.xid with len := d.rss }).Ledger cfg N L := by
    have hstep := h.update (Nat.not_le.mp hx) (c := { s.ddp d.xid with len := d.rss }) (m := [])
      (t := []) (u := []) (r := []) (n := 0) (l := 0) (w := s.hw) (by rfl)
      (by rw [add_zero]; rfl) (h.udl_of_sgl d.xid)
      (fun hne => ⟨h.pool_of_udl d.xid hne, h.ddpPool d.xid hne⟩)
    simpa [setDdp] using hstep
  cases hstat : d.fcstat with
  | ddp =>
    rw [hsame _ fun hc => by cases hc.2.2.2.1]
    exact hlen
  | noddp =>
    rw [hsame _ fun hc => by cases hc.2.2.2.1]
    exact hlen
  | nomtch =>
    rw [hsame _ fun hc => by cases hc.2.2.2.1]
    exact h
  | fcprsp =>
    have hstep : ∀ N', N' + single (s.ddp d.xid).mapping =
        {((s.ddp d.xid).sgl, (s.ddp d.xid).sgc)} →
        ((s.unmapSg (s.ddp d.xid).sgl (s.ddp d.xid).sgc).setDdp d.xid
          { s.ddp d.xid with err := 0, sgl := none, sgc := 0, len := d.rss }).Ledger cfg
            (N + N') L := by
      intro N' hN'
      have hupd := h.update (Nat.not_le.mp hx)
        (c := { s.ddp d.xid with err := 0, sgl := none, sgc := 0, len := d.rss }) (m := [])
        (t := []) (u := [((s.ddp d.xid).sgl, (s.ddp d.xid).sgc)]) (r := []) (n := N') (l := 0)
        (w := s.hw)
        (by rw [show tagged [] = 0 from rfl, zero_add, hN']; rfl) (by rw [add_zero]; rfl)
        (fun hne => absurd rfl hne)
        (fun hne => ⟨h.pool_of_udl d.xid hne, h.ddpPool d.xid hne⟩)
      simpa [setDdp, unmapSg] using hupd
    apply hstep
    cases hsgl : (s.ddp d.xid).sgl with
    | none =>
      rw [if_pos ⟨Nat.not_le.mp hx, hudl, (Bool.not_eq_true _).mp herr, rfl, rfl⟩, mapping, hsgl]
      exact add_zero _
    | some sgl =>
      rw [if_neg (fun hc => some_ne_none sgl hc.2.2.2.2), mapping, hsgl]
      exact zero_add _

theorem Fcoe.Ledger.step (e : FcoeEvent) :
    (fcoeStep cfg s e).Ledger cfg (N + e.nulls cfg s) (L + e.leaks cfg s) := by
  cases e with
  | setup q =>
    simp only [fcoeStep, fcoeDdpSetup, FcoeEvent.nulls, FcoeEvent.leaks, add_zero]
    split
    case isTrue hadm =>
      by_cases hsgl : (s.ddp q.xid).sgl = none
      · rw [if_neg (not_not.mpr hsgl), if_pos ⟨hadm, hsgl⟩]
        exact h.setup (lt_ddpMax hadm.2.2.1) hsgl _
      · rw [if_pos hsgl, if_neg fun hc => hsgl hc.2, add_zero]
        exact h
    case isFalse hadm =>
      rw [if_neg fun hc => hadm hc.1, add_zero]
      exact h
  | desc d =>
    rw [show (FcoeEvent.desc d).leaks cfg s = 0 from rfl, add_zero]
    exact h.desc d
  | put xid =>
    rw [show (FcoeEvent.put xid).nulls cfg s = 0 from rfl, add_zero,
      show (FcoeEvent.put xid).leaks cfg s = 0 from rfl, add_zero]
    exact (h.put xid).1

/-- **A run on the accounts**: nothing is leaked exactly if all its events keep them. -/
theorem Fcoe.Ledger.run (es : List FcoeEvent) :
    ∃ N' L', (run (fcoeStep cfg) s es).Ledger cfg (N + N') (L + L') ∧
      (N' = 0 ∧ L' = 0 ↔ Along (fcoeStep cfg) (fun s e => e.Ok cfg s) s es) := by
  induction es generalizing s N L with
  | nil => exact ⟨0, 0, by simpa [EventRun.run] using h, iff_of_true ⟨rfl, rfl⟩ trivial⟩
  | cons e es ih =>
    obtain ⟨N', L', hrun, hiff⟩ := ih (h.step e)
    refine ⟨e.nulls cfg s + N', e.leaks cfg s + L', ?_, ?_⟩
    · rw [← add_assoc, ← add_assoc]
      exact hrun
    · rw [along_cons, ← hiff, FcoeEvent.ok_iff, add_eq_zero_iff_of_nonneg (zero_le _) (zero_le _),
        add_eq_zero_iff_of_nonneg (zero_le _) (zero_le _)]
      exact and_and_and_comm

theorem Fcoe.Ledger.foldl_put (n : ℕ) :
    ((List.range n).foldl (fun s xid => (fcoeDdpPut cfg s xid).2) s).Ledger cfg N L ∧
      ∀ xid < n, (((List.range n).foldl (fun s xid => (fcoeDdpPut cfg s xid).2) s).ddp xid).udl =
        none := by
  induction n with
  | zero => exact ⟨h, fun _ hx => absurd hx (Nat.not_lt_zero _)⟩
  | succ n ih =>
    obtain ⟨hledger, hnone⟩ := ih
    obtain ⟨hput, hself, hother⟩ := hledger.put n
    rw [List.range_succ, List.foldl_append]
    refine ⟨hput, fun xid hx => ?_⟩
    rcases Nat.lt_succ_iff_lt_or_eq.mp hx with hlt | rfl
    · exact (congrArg udl (hother xid hlt.ne)).trans (hnone xid hlt)
    · exact hself

theorem Fcoe.Ledger.free :
    (freeFcoeDdpResources cfg s).Ledger cfg N L ∧
      ∀ xid, ((freeFcoeDdpResources cfg s).ddp xid).udl = none := by
  unfold freeFcoeDdpResources
  split
  case isTrue hpool =>
    refine ⟨h, fun xid => ?_⟩
    by_contra hne
    rw [h.ddpPool xid hne] at hpool
    cases hpool
  · obtain ⟨hledger, hnone⟩ := h.foldl_put cfg.ddpMax
    refine ⟨hledger, fun xid => ?_⟩
    rcases Nat.lt_or_ge xid cfg.ddpMax with hlt | hge
    · exact hnone xid hlt
    · exact hledger.beyond xid hge

theorem Fcoe.Ledger.settled_iff (hnone : ∀ xid, (s.ddp xid).udl = none) :
    s.Settled ↔ N = 0 ∧ L = 0 := by
  have hmaps := h.maps
  have hblocks := h.blocks
  rw [contents_eq_zero fun xid _ => ?_, add_zero] at hmaps
  · rw [contents_eq_zero fun xid _ => ?_, add_zero] at hblocks
    · constructor
      · intro hs
        rw [hs.maps, add_eq_left] at hmaps
        rw [hs.blocks, left_eq_add] at hblocks
        exact ⟨hmaps, hblocks⟩
      · rintro ⟨rfl, rfl⟩
        rw [add_zero] at hmaps hblocks
        refine ⟨hmaps, fun u hu => ?_, hblocks⟩
        have hmem : u ∈ tagged s.mapped := by
          rw [hmaps]
          exact hu
        rw [tagged, mem_coe, List.mem_map] at hmem
        obtain ⟨m, -, rfl⟩ := hmem
        exact some_ne_none _
    · rw [block, hnone xid]
      rfl
  · have hsgl : (s.ddp xid).sgl = none := by
      by_contra hne
      exact h.udl_of_sgl xid hne (hnone xid)
    rw [mapping, hsgl]
    rfl

end

end

def Fcoe.initial : Fcoe where
  ddp := fun _ => ⟨0, 0, 0, none, none, none⟩
  hw := ⟨fun _ => [], fun _ => ⟨0, 0, 0, 0, 0⟩, false, 0⟩
  mapped := []
  unmapped := []
  taken := []
  returned := []

theorem Fcoe.initial_ledger (cfg : FcoeCfg) : initial.Ledger cfg 0 0 where
  maps := by
    rw [contents_eq_zero fun _ _ => rfl]
    rfl
  blocks := by
    rw [contents_eq_zero fun _ _ => rfl]
    rfl
  udl_of_sgl := fun _ h => absurd rfl h
  pool_of_udl := fun _ h => absurd rfl h
  ddpPool := fun _ h => absurd rfl h
  beyond := fun _ _ => rfl

/-- **Direct data placement is settled if and only if** no exchange whose list was unmapped is set
up again or receives another response before it is put. -/
theorem ddp_settled_iff (cfg : FcoeCfg) (es : List FcoeEvent) :
    (freeFcoeDdpResources cfg (run (fcoeStep cfg) Fcoe.initial es)).Settled ↔
      Along (fcoeStep cfg) (fun s e => e.Ok cfg s) Fcoe.initial es := by
  obtain ⟨N, L, hrun, hiff⟩ := (Fcoe.initial_ledger cfg).run es
  rw [zero_add, zero_add] at hrun
  obtain ⟨hledger, hnone⟩ := hrun.free
  rw [hledger.settled_iff hnone, hiff]

def pageSetup : DdpSetup where
  xid := 5
  sgl := some 1
  sgc := 1
  down := false
  pool := some 0
  segs := [(0, 1000)]
  alloc := true
  targetMode := false

def response : FcoeDesc where
  exCtx := true
  oxId := 5
  rxId := 0
  ddpErr := false
  fcstat := .fcprsp
  rss := 1000

/-- A second response for an exchange unmaps no list. -/
theorem ddp_second_response :
    let cfg : FcoeCfg := ⟨.mac82599EB, true, 0⟩
    let s := run (fcoeStep cfg) Fcoe.initial [.setup pageSetup, .desc response, .desc response]
    s.unmapped = [(none, 0), (some 1, 1)] ∧ s.mapped = [(1, 1)] ∧
      ¬ (freeFcoeDdpResources cfg s).Settled := by
  intro cfg s
  have hledger : s.unmapped = [(none, 0), (some 1, 1)] ∧ s.mapped = [(1, 1)] := by decide
  refine ⟨hledger.1, hledger.2, fun h => ?_⟩
  exact h.ne_null (none, 0) (by decide +kernel) rfl

end Ixgbe
