import LxApi32.Kernel.Stacks
import LxApi32.Lib.Arena
import LxApi32.Lib.FirstMatch
import LxApi32.Lib.Machine
import LxApi32.Lib.Slots
import Mathlib.Data.List.FinRange

/-!
# GDT selectors

The device driver has a table of 64 GDT selectors.  `ioremap` takes one for every mapping, which it
notes in `mmem`, and `LX_alloc_segment` one for each piece of 65535 bytes of a segment; `iounmap`
and `LX_free_segment` give them back.  Both take `0` for a selector if none is left.

The functions get the answers of the system as arguments.  The table is found with the first
selector; if that fails it is read at address `0`, and the function does not return.

* `SelState.always_accounted` : in every run the selectors that are marked as used are those of the
  mappings and segments there are, and none is held twice.
-/

namespace LxApi32

/-- A selector. -/
abbrev SEL := BitVec 16

/-- The selectors at `GDTSelectors_PTR`. -/
structure GdtTable where
  /-- The entries. -/
  sel : Fin 64 → SEL
  /-- They are different. -/
  injective : Function.Injective sel
  /-- None is `0`. -/
  sel_ne_zero : ∀ i, sel i ≠ 0

/-- The table with the selectors `8`, `16` and so on. -/
def GdtTable.numbered : GdtTable where
  sel i := BitVec.ofNat 16 (8 * (i + 1))
  injective i j h := by
    have hnat := congrArg BitVec.toNat h
    simp only [BitVec.toNat_ofNat] at hnat
    exact Fin.ext (by omega)
  sel_ne_zero i h := by
    have hnat : 8 * (i.val + 1) % 2 ^ 16 = 0 := congrArg BitVec.toNat h
    omega

/-- The state of `lxmemory.c`. -/
structure Gdt where
  /-- `selectorsUsed` -/
  used : Fin 64 → Bool
  /-- `GDTSelectors` has the address of the table. -/
  ready : Bool

/-- `struct mapped_mem` -/
structure MappedMem where
  /-- `sel` -/
  sel : SEL
  /-- `linaddr` -/
  linaddr : ULONG
  /-- `pid` and `tid` -/
  thread : ThreadId
  deriving DecidableEq, Repr

/-- `struct lx_segment` -/
structure Segment where
  /-- The address of the structure. -/
  addr : ULONG
  /-- `type` -/
  type : ULONG
  /-- `size` -/
  size : ULONG
  /-- `pVirtual` -/
  pVirtual : ULONG
  /-- `pPhysical` -/
  pPhysical : ULONG
  /-- `pMapped` -/
  pMapped : ULONG
  /-- `numSels` -/
  numSels : ULONG
  /-- `sels`, the address of the array -/
  sels : ULONG
  /-- The entries of the array that have been written; those behind are `0`. -/
  selArray : List SEL
  deriving DecidableEq, Repr

/-- `MAX_SEGMENT_SIZE` -/
def maxSegmentSize : ULONG := 65535

/-- `LX_get_gdt_selectors`; `lin` tells whether `DevVirtToLin` succeeds. -/
def getGdtSelectors (lin : Bool) (g : Gdt) : Gdt :=
  if g.ready then g else { g with ready := lin }

/-- `LX_allocGDTSelector` -/
def allocGDTSelector (t : GdtTable) (lin : Bool) (g : Gdt) : Option (Gdt × SEL) :=
  let g := getGdtSelectors lin g
  match (List.finRange 64).find? fun i => !g.used i with
  | none => some (g, 0)
  | some i =>
    if g.ready then some ({ g with used := Function.update g.used i true }, t.sel i) else none

/-- `LX_freeGDTSelector` -/
def freeGDTSelector (t : GdtTable) (lin : Bool) (selector : SEL) (g : Gdt) : Option (Gdt × Bool) :=
  let g := getGdtSelectors lin g
  if g.ready then
    match (List.finRange 64).find? fun i => t.sel i = selector with
    | none => some (g, false)
    | some i => some ({ g with used := Function.update g.used i false }, true)
  else none

/-- The first free entry of `mmem` is filled. -/
def fillMapped (m : MappedMem) : List MappedMem → List MappedMem
  | [] => []
  | p :: rest => if p.sel = 0 then m :: rest else p :: fillMapped m rest

/-- The first mapping with an address. -/
def findMapped (addr : ULONG) (mmem : List MappedMem) : Option MappedMem :=
  mmem.find? fun m => m.sel ≠ 0 ∧ m.linaddr = addr

/-- Its entry is cleared. -/
def clearMapped (addr : ULONG) : List MappedMem → List MappedMem
  | [] => []
  | p :: rest =>
    if p.sel ≠ 0 ∧ p.linaddr = addr then { p with sel := 0, linaddr := 0 } :: rest
    else p :: clearMapped addr rest

/-- The answers of the system to `ioremap`. -/
structure RemapAns where
  /-- `DevVirtToLin` for the table, at the allocation and at the release of the selector. -/
  table : Bool × Bool
  /-- `DevPhysToGDTSelector` succeeds. -/
  map : ULONG → BitVec 16 → SEL → Bool
  /-- `linaddr` if `DevVirtToLin` succeeds. -/
  lin : SEL → Option ULONG

/-- `ioremap` -/
def ioremap (t : GdtTable) (ans : RemapAns) (thread : ThreadId) (addr : ULONG) (usSize : BitVec 16)
    (g : Gdt) (mmem : List MappedMem) : Option (Gdt × List MappedMem × ULONG) :=
  match allocGDTSelector t ans.table.1 g with
  | none => none
  | some (g, sel) =>
    let linaddr := if ans.map addr usSize sel then (ans.lin sel).getD 0 else 0
    if linaddr = 0 then
      (freeGDTSelector t ans.table.2 sel g).map fun r => (r.1, mmem, linaddr)
    else some (g, fillMapped ⟨sel, linaddr, thread⟩ mmem, linaddr)

/-- `iounmap` -/
def iounmap (t : GdtTable) (table : Bool) (addr : ULONG) (g : Gdt) (mmem : List MappedMem) :
    Option (Gdt × List MappedMem) :=
  match findMapped addr mmem with
  | none => some (g, mmem)
  | some m => (freeGDTSelector t table m.sel g).map fun r => (r.1, clearMapped addr mmem)

/-- Operations of `kmalloc`, `kfree`, `__LX_malloc` and `__LX_free`, by address. -/
abbrev SegOp := Arena.Op ULONG ULONG

/-- What is handed out if the answer is an address. -/
def allocOps (addr : ULONG) : List SegOp := if addr = 0 then [] else [.alloc addr]

/-- The answers of the system to `LX_alloc_segment`. -/
structure SegmentAns where
  /-- `kmalloc` of the structure -/
  segment : ULONG
  /-- `__LX_malloc` -/
  virt : ULONG
  /-- `LX__pa` -/
  pa : ULONG → ULONG
  /-- `kmalloc` of the array -/
  sels : ULONG
  /-- `DevVirtToLin` for the table, at the allocation of each selector and at its release. -/
  table : ℕ → Bool × Bool
  /-- `DevPhysToGDTSel` succeeds for a selector. -/
  map : ℕ → ULONG → ULONG → SEL → ULONG → Bool
  /-- `pMapped` if `DevVirtToLin` succeeds for a selector. -/
  lin : ℕ → SEL → Option ULONG

/-- What `LX_alloc_segment` does. -/
structure SegmentResult where
  /-- The selectors. -/
  gdt : Gdt
  /-- The memory that it has taken and given back. -/
  ops : List SegOp
  /-- The segment, `none` for `0`. -/
  ret : Option Segment

/-- The loop of `LX_alloc_segment` for the `n` selectors from the `k`-th on: whether all of them
could be mapped. -/
def selLoop (t : GdtTable) (ans : SegmentAns) :
    ℕ → ℕ → ULONG → ULONG → Gdt → Segment → Option (Gdt × Segment × Bool)
  | 0, _, _, _, g, segment => some (g, segment, true)
  | n + 1, k, lastphysical, size, g, segment =>
    let sz := if maxSegmentSize < size then maxSegmentSize else size
    match allocGDTSelector t (ans.table k).1 g with
    | none => none
    | some (g, sel) =>
      let segment := { segment with selArray := segment.selArray ++ [sel] }
      -- `no_sel`
      if sel = 0 then some (g, segment, false)
      -- `no_map`
      else if ans.map k lastphysical sz sel segment.type = false then some (g, segment, false)
      else if segment.pMapped = 0 then
        match ans.lin k sel with
        -- `no_lin`
        | none => some (g, segment, false)
        | some pMapped =>
          selLoop t ans n (k + 1) (lastphysical + sz) (size - sz) g { segment with pMapped }
      else selLoop t ans n (k + 1) (lastphysical + sz) (size - sz) g segment

/-- The loop over `sels` that gives the selectors back, from the `k`-th on. -/
def freeSels (t : GdtTable) (table : ℕ → Bool) : ℕ → List SEL → Gdt → Option Gdt
  | _, [], g => some g
  | k, sel :: rest, g =>
    if sel ≠ 0 then
      match freeGDTSelector t (table k) sel g with
      | none => none
      | some (g, _) => freeSels t table (k + 1) rest g
    else freeSels t table (k + 1) rest g

/-- The address of the structure, `0` if there is none. -/
def segmentAddr (ans : SegmentAns) (segptr : ULONG) : ULONG :=
  if segptr = 0 then ans.segment else segptr

/-- The address of the memory, `0` if there is none. -/
def segmentVirtual (ans : SegmentAns) (virtAddr : ULONG) : ULONG :=
  if virtAddr = 0 then ans.virt else virtAddr

/-- The structure that is handed out. -/
def structOps (ans : SegmentAns) (segptr : ULONG) : List SegOp :=
  if segptr = 0 then allocOps ans.segment else []

/-- The memory that is handed out. -/
def virtualOps (ans : SegmentAns) (virtAddr : ULONG) : List SegOp :=
  if virtAddr = 0 then allocOps ans.virt else []

/-- `LX_alloc_segment` -/
def lxAllocSegment (t : GdtTable) (ans : SegmentAns) (type size virtAddr segptr : ULONG) (g : Gdt) :
    Option SegmentResult :=
  let addr := segmentAddr ans segptr
  let ops := structOps ans segptr
  if addr = 0 then some ⟨g, ops, none⟩
  else
    let segment : Segment := ⟨addr, type, size, 0, 0, 0, 0, 0, []⟩
    if size = 0 then some ⟨g, ops, some segment⟩
    else
      let pVirtual := segmentVirtual ans virtAddr
      let ops := ops ++ virtualOps ans virtAddr
      -- `no_virtual`
      if pVirtual = 0 then some ⟨g, ops ++ [.free addr], none⟩
      else
        let pPhysical := ans.pa pVirtual
        -- `no_physical`
        if pPhysical = 0 then some ⟨g, ops ++ [.free addr], none⟩
        else
          let numSels := size / maxSegmentSize + 1
          let ops := ops ++ allocOps ans.sels
          -- `no_selarray`
          if ans.sels = 0 then some ⟨g, ops ++ [.free addr], none⟩
          else
            let segment := { segment with pVirtual, pPhysical, numSels, sels := ans.sels }
            match selLoop t ans numSels.toNat 0 pPhysical size g segment with
            | none => none
            | some (g, segment, true) => some ⟨g, ops, some segment⟩
            | some (g, segment, false) =>
              (freeSels t (fun k => (ans.table k).2) 0 segment.selArray g).map fun g =>
                ⟨g, ops ++ [.free addr], none⟩

/-- `LX_free_segment` of a segment: the selectors and the memory. -/
def lxFreeSegment (t : GdtTable) (table : ℕ → Bool) (segment : Segment) (g : Gdt) :
    Option (Gdt × List SegOp) :=
  (freeSels t table 0 segment.selArray g).map fun g =>
    (g, (if segment.pVirtual = 0 then [] else [.free segment.pVirtual]) ++ [.free segment.addr])

/-- A call with the answers of the system. -/
inductive SelAct
  /-- `ioremap` -/
  | ioremap (thread : ThreadId) (addr : ULONG) (usSize : BitVec 16) (ans : RemapAns)
  /-- `iounmap` -/
  | iounmap (addr : ULONG) (table : Bool)
  /-- `LX_alloc_segment` -/
  | allocSegment (type size virtAddr segptr : ULONG) (ans : SegmentAns)
  /-- `LX_free_segment` -/
  | freeSegment (segment : ULONG) (table : ℕ → Bool)

/-- The state. -/
structure SelState where
  /-- `selectorsUsed` and `GDTSelectors` -/
  gdt : Gdt
  /-- `mmem` -/
  mmem : List MappedMem
  /-- The segments that `LX_alloc_segment` has returned and that are not freed since. -/
  live : List Segment

namespace SelState

/-- The step function. -/
def step (t : GdtTable) (s : SelState) : SelAct → Option SelState
  | .ioremap thread addr usSize ans =>
    (ioremap t ans thread addr usSize s.gdt s.mmem).map fun r =>
      { s with gdt := r.1, mmem := r.2.1 }
  | .iounmap addr table =>
    (iounmap t table addr s.gdt s.mmem).map fun r => { s with gdt := r.1, mmem := r.2 }
  | .allocSegment type size virtAddr segptr ans =>
    -- the memory of a segment there is has its owner
    if ∃ p ∈ s.live, p.addr = segmentAddr ans segptr then none
    else
      (lxAllocSegment t ans type size virtAddr segptr s.gdt).map fun r =>
        { s with gdt := r.gdt, live := r.ret.toList ++ s.live }
  | .freeSegment segment table =>
    if segment = 0 then some s
    else
      match s.live.find? fun p => p.addr = segment with
      -- it is freed at most once
      | none => none
      | some p =>
        (lxFreeSegment t table p s.gdt).map fun r => { s with gdt := r.1, live := s.live.erase p }

/-- No selector is used. -/
def initial : SelState := ⟨⟨fun _ => false, false⟩, List.replicate 64 ⟨0, 0, ⟨0, 0⟩⟩, []⟩

/-- The machine of the GDT selectors. -/
def machine (t : GdtTable) : Machine SelState SelAct := ⟨initial, step t⟩

/-- The fields in which mappings and segments have their selectors; `0` is none. -/
def sels (s : SelState) : List SEL := s.mmem.map MappedMem.sel ++ s.live.flatMap Segment.selArray

/-- The selectors that the mappings and the segments hold. -/
def held (s : SelState) : List SEL := s.sels.filter fun sel => sel ≠ 0

/-- Every selector is held once, and those that are held are the ones that are marked as used. -/
def Accounted (t : GdtTable) (s : SelState) : Prop := Slots.Accounts t.sel s.gdt.used s.held

end SelState

/-! ### Taking and giving back a selector -/

namespace Gdt

variable {t : GdtTable} {lin : Bool} {g g' : Gdt} {sel : SEL} {sels sels' : List SEL}

/-- The selectors that are marked as used are those of a list in which `0` is none. -/
def Holds (t : GdtTable) (g : Gdt) (sels : List SEL) : Prop :=
  Slots.Accounts t.sel g.used (sels.filter fun sel => sel ≠ 0)

theorem Holds.perm (h : g.Holds t sels) (hp : sels.Perm sels') : g.Holds t sels' :=
  Slots.Accounts.perm h (hp.filter _)

@[simp]
theorem holds_zero_cons : g.Holds t (0 :: sels) ↔ g.Holds t sels := by
  simp [Holds]

theorem holds_cons (h : sel ≠ 0) :
    g.Holds t (sel :: sels) ↔
      Slots.Accounts t.sel g.used (sel :: sels.filter fun sel => sel ≠ 0) := by
  rw [Holds, List.filter_cons_of_pos (by simpa using h)]

@[simp]
theorem getGdtSelectors_used : (getGdtSelectors lin g).used = g.used := by
  unfold getGdtSelectors
  split_ifs <;> rfl

/-- What is taken is held, also if none is left. -/
theorem Holds.alloc (h : g.Holds t sels) (ha : allocGDTSelector t lin g = some (g', sel)) :
    g'.Holds t (sel :: sels) := by
  unfold allocGDTSelector at ha
  cases hfind : (List.finRange 64).find? fun i => !(getGdtSelectors lin g).used i with
  | none =>
    simp only [hfind, Option.some.injEq, Prod.mk.injEq] at ha
    obtain ⟨rfl, rfl⟩ := ha
    rw [holds_zero_cons]
    simpa only [Holds, getGdtSelectors_used] using h
  | some i =>
    simp only [hfind] at ha
    split_ifs at ha
    obtain ⟨rfl, rfl⟩ := Prod.mk.inj (Option.some.inj ha)
    have hi : g.used i = false := by simpa using List.find?_some hfind
    rw [holds_cons (t.sel_ne_zero i)]
    simpa only [getGdtSelectors_used] using Slots.Accounts.take h t.injective hi

/-- What is given back is held no longer. -/
theorem Holds.free {b : Bool} (h : g.Holds t (sel :: sels))
    (hf : freeGDTSelector t lin sel g = some (g', b)) : g'.Holds t sels := by
  unfold freeGDTSelector at hf
  simp only at hf
  split_ifs at hf with hready
  cases hfind : (List.finRange 64).find? fun i => t.sel i = sel with
  | none =>
    simp only [hfind, Option.some.injEq, Prod.mk.injEq] at hf
    obtain ⟨rfl, -⟩ := hf
    -- every selector that is held is in the table
    have hzero : sel = 0 := by
      by_contra hne
      rw [holds_cons hne] at h
      obtain ⟨i, -, hi⟩ := (h.2 sel).1 List.mem_cons_self
      simpa [hi] using List.find?_eq_none.1 hfind i (List.mem_finRange i)
    rw [hzero, holds_zero_cons] at h
    simpa only [Holds, getGdtSelectors_used] using h
  | some i =>
    simp only [hfind, Option.some.injEq, Prod.mk.injEq] at hf
    obtain ⟨rfl, -⟩ := hf
    obtain rfl : t.sel i = sel := by simpa using List.find?_some hfind
    rw [holds_cons (t.sel_ne_zero i)] at h
    simpa only [Holds, getGdtSelectors_used] using h.give t.injective

/-- An array of selectors is given back. -/
theorem Holds.freeSels {table : ℕ → Bool} {k : ℕ} (h : g.Holds t (sels ++ sels'))
    (hf : LxApi32.freeSels t table k sels g = some g') : g'.Holds t sels' := by
  induction sels generalizing k g with
  | nil => cases hf; exact h
  | cons sel rest ih =>
    rw [LxApi32.freeSels] at hf
    split_ifs at hf with hsel
    · cases hr : freeGDTSelector t (table k) sel g with
      | none => rw [hr] at hf; cases hf
      | some r =>
        rw [hr] at hf
        exact ih (h.free hr) hf
    · rw [not_not] at hsel
      rw [hsel, List.cons_append, holds_zero_cons] at h
      exact ih h hf

end Gdt

/-! ### The functions -/

section Functions

variable {t : GdtTable} {g g' : Gdt} {sels : List SEL} {mmem mmem' : List MappedMem}

theorem fillMapped_eq {m : MappedMem} :
    fillMapped m mmem = modifyFirst (fun p => p.sel = 0) (fun _ => m) mmem :=
  FirstMatch.eq_modifyFirst rfl fun _ _ => rfl

theorem clearMapped_eq {addr : ULONG} : clearMapped addr mmem =
    modifyFirst (fun p => p.sel ≠ 0 ∧ p.linaddr = addr)
      (fun p => { p with sel := 0, linaddr := 0 }) mmem :=
  FirstMatch.eq_modifyFirst rfl fun _ _ => rfl

/-- A mapping takes the place of a free entry. -/
theorem fillMapped_perm {m p : MappedMem} (hp : p ∈ mmem) (hsel : p.sel = 0) :
    (0 :: (fillMapped m mmem).map MappedMem.sel).Perm (m.sel :: mmem.map MappedMem.sel) := by
  have hfree : (mmem.find? fun p => p.sel = 0).isSome :=
    List.find?_isSome.2 ⟨p, hp, by simpa using hsel⟩
  obtain ⟨q, hq⟩ := Option.isSome_iff_exists.1 hfree
  have hqsel : q.sel = 0 := (FirstMatch.exists_append hq).1
  have hperm := (FirstMatch.perm_modifyFirst (f := fun _ => m) hq).map MappedMem.sel
  rwa [← fillMapped_eq, List.map_cons, List.map_cons, hqsel] at hperm

theorem fillMapped_of_forall {m : MappedMem} (h : ∀ p ∈ mmem, p.sel ≠ 0) :
    fillMapped m mmem = mmem := by
  rw [fillMapped_eq, FirstMatch.modifyFirst_of_forall h]

@[simp]
theorem length_fillMapped {m : MappedMem} : (fillMapped m mmem).length = mmem.length := by
  rw [fillMapped_eq, FirstMatch.length_modifyFirst]

/-- The entry of a mapping is free afterwards. -/
theorem clearMapped_perm {addr : ULONG} {m : MappedMem} (h : findMapped addr mmem = some m) :
    (m.sel :: (clearMapped addr mmem).map MappedMem.sel).Perm (0 :: mmem.map MappedMem.sel) := by
  rw [clearMapped_eq]
  exact (FirstMatch.perm_modifyFirst h).map MappedMem.sel

@[simp]
theorem length_clearMapped {addr : ULONG} : (clearMapped addr mmem).length = mmem.length := by
  rw [clearMapped_eq, FirstMatch.length_modifyFirst]

/-- A new mapping finds a free entry, since there are as many entries as selectors. -/
theorem holds_fillMapped {m : MappedMem} (hlen : mmem.length = 64)
    (h : g.Holds t (m.sel :: (mmem.map MappedMem.sel ++ sels))) :
    g.Holds t ((fillMapped m mmem).map MappedMem.sel ++ sels) := by
  by_cases hfree : ∃ p ∈ mmem, p.sel = 0
  · obtain ⟨p, hp, hsel⟩ := hfree
    exact Gdt.holds_zero_cons.1 (h.perm ((fillMapped_perm hp hsel).symm.append_right sels))
  · push Not at hfree
    rw [fillMapped_of_forall hfree]
    by_cases hm : m.sel = 0
    · rwa [hm, Gdt.holds_zero_cons] at h
    · exfalso
      rw [Gdt.holds_cons hm] at h
      -- 65 selectors would be in use
      have hall : ((mmem.map MappedMem.sel).filter fun sel => sel ≠ 0) =
          mmem.map MappedMem.sel := by
        rw [List.filter_eq_self]
        simpa using hfree
      have hle := h.length_le
      simp only [List.filter_append, hall, List.length_cons, List.length_append, List.length_map,
        hlen, Fintype.card_fin] at hle
      omega

theorem holds_ioremap {ans : RemapAns} {thread : ThreadId} {addr linaddr : ULONG}
    {usSize : BitVec 16} (hlen : mmem.length = 64)
    (h : g.Holds t (mmem.map MappedMem.sel ++ sels))
    (hr : ioremap t ans thread addr usSize g mmem = some (g', mmem', linaddr)) :
    g'.Holds t (mmem'.map MappedMem.sel ++ sels) ∧ mmem'.length = 64 := by
  unfold ioremap at hr
  cases ha : allocGDTSelector t ans.table.1 g with
  | none => rw [ha] at hr; cases hr
  | some r =>
    obtain ⟨g₁, sel⟩ := r
    have h₁ := h.alloc ha
    simp only [ha] at hr
    generalize (if ans.map addr usSize sel = true then (ans.lin sel).getD 0 else 0) = l at hr
    split_ifs at hr with hl
    · obtain ⟨r, hf, heq⟩ := Option.map_eq_some_iff.1 hr
      cases heq
      exact ⟨h₁.free hf, hlen⟩
    · cases hr
      exact ⟨holds_fillMapped hlen h₁, by rw [length_fillMapped, hlen]⟩

theorem holds_iounmap {table : Bool} {addr : ULONG} (hlen : mmem.length = 64)
    (h : g.Holds t (mmem.map MappedMem.sel ++ sels))
    (hr : iounmap t table addr g mmem = some (g', mmem')) :
    g'.Holds t (mmem'.map MappedMem.sel ++ sels) ∧ mmem'.length = 64 := by
  unfold iounmap at hr
  cases hfind : findMapped addr mmem with
  | none =>
    simp only [hfind, Option.some.injEq, Prod.mk.injEq] at hr
    obtain ⟨rfl, rfl⟩ := hr
    exact ⟨h, hlen⟩
  | some m =>
    simp only [hfind] at hr
    obtain ⟨r, hf, heq⟩ := Option.map_eq_some_iff.1 hr
    cases heq
    refine ⟨?_, by rw [length_clearMapped, hlen]⟩
    have hp := (clearMapped_perm hfind).symm.append_right sels
    exact Gdt.Holds.free ((Gdt.holds_zero_cons.2 h).perm hp) hf

/-- What every selector that the loop takes preserves, the loop preserves. -/
theorem selLoop_invariant {I : Gdt → Segment → Prop} {ans : SegmentAns} {n k : ℕ}
    {lastphysical size : ULONG} {segment segment' : Segment} {b : Bool}
    (hstep : ∀ k g g' sel segment pMapped, I g segment →
      allocGDTSelector t (ans.table k).1 g = some (g', sel) →
      I g' { segment with selArray := segment.selArray ++ [sel], pMapped })
    (h : I g segment)
    (hr : selLoop t ans n k lastphysical size g segment = some (g', segment', b)) :
    I g' segment' := by
  induction n generalizing k lastphysical size g segment with
  | zero => cases hr; exact h
  | succ n ih =>
    rw [selLoop] at hr
    cases ha : allocGDTSelector t (ans.table k).1 g with
    | none => rw [ha] at hr; cases hr
    | some r =>
      obtain ⟨g₁, sel⟩ := r
      simp only [ha] at hr
      generalize (if maxSegmentSize < size then maxSegmentSize else size) = sz at hr
      have h₁ := hstep k g g₁ sel segment segment.pMapped h ha
      split_ifs at hr
      · cases hr; exact h₁
      · cases hr; exact h₁
      · cases hlin : ans.lin k sel with
        | none => simp only [hlin] at hr; cases hr; exact h₁
        | some pMapped =>
          simp only [hlin] at hr
          exact ih (hstep k g g₁ sel segment pMapped h ha) hr
      · exact ih h₁ hr

/-- What the loop takes is in the array. -/
theorem holds_selLoop {ans : SegmentAns} {n k : ℕ} {lastphysical size : ULONG}
    {segment segment' : Segment} {b : Bool} (h : g.Holds t (segment.selArray ++ sels))
    (hr : selLoop t ans n k lastphysical size g segment = some (g', segment', b)) :
    g'.Holds t (segment'.selArray ++ sels) := by
  refine selLoop_invariant (I := fun g segment => g.Holds t (segment.selArray ++ sels)) ?_ h hr
  intro k g g' sel segment pMapped h ha
  exact (h.alloc ha).perm (by simpa using List.perm_middle.symm)

/-- The loop changes neither the address of the structure nor that of the memory. -/
theorem selLoop_segment {ans : SegmentAns} {n k : ℕ} {lastphysical size : ULONG}
    {segment segment' : Segment} {b : Bool}
    (hr : selLoop t ans n k lastphysical size g segment = some (g', segment', b)) :
    segment'.addr = segment.addr ∧ segment'.pVirtual = segment.pVirtual :=
  selLoop_invariant
    (I := fun _ segment' => segment'.addr = segment.addr ∧ segment'.pVirtual = segment.pVirtual)
    (fun _ _ _ _ _ _ h _ => h) ⟨rfl, rfl⟩ hr

/-- **The exits of `LX_alloc_segment`.** -/
theorem lxAllocSegment_cases {ans : SegmentAns} {type size virtAddr segptr : ULONG}
    {r : SegmentResult} (hr : lxAllocSegment t ans type size virtAddr segptr g = some r) :
    let addr := segmentAddr ans segptr
    let pVirtual := segmentVirtual ans virtAddr
    (addr = 0 ∧ r = ⟨g, structOps ans segptr, none⟩) ∨
    (addr ≠ 0 ∧ size = 0 ∧
      r = ⟨g, structOps ans segptr, some ⟨addr, type, 0, 0, 0, 0, 0, 0, []⟩⟩) ∨
    (addr ≠ 0 ∧ size ≠ 0 ∧ (pVirtual = 0 ∨ ans.pa pVirtual = 0 ∨ ans.sels = 0) ∧
      r = ⟨g, structOps ans segptr ++ virtualOps ans virtAddr ++ [.free addr], none⟩) ∨
    (addr ≠ 0 ∧ size ≠ 0 ∧ pVirtual ≠ 0 ∧ ans.pa pVirtual ≠ 0 ∧ ans.sels ≠ 0 ∧
      ∃ g₁ segment b,
        selLoop t ans (size / maxSegmentSize + 1).toNat 0 (ans.pa pVirtual) size g
          ⟨addr, type, size, pVirtual, ans.pa pVirtual, 0, size / maxSegmentSize + 1, ans.sels, []⟩
          = some (g₁, segment, b) ∧
        (b = true ∧ r = ⟨g₁, structOps ans segptr ++ virtualOps ans virtAddr ++ [.alloc ans.sels],
          some segment⟩ ∨
        b = false ∧ ∃ g₂, freeSels t (fun k => (ans.table k).2) 0 segment.selArray g₁ = some g₂ ∧
          r = ⟨g₂, structOps ans segptr ++ virtualOps ans virtAddr ++
            [.alloc ans.sels, .free addr], none⟩)) := by
  intro addr pVirtual
  simp only [lxAllocSegment] at hr
  by_cases h₁ : addr = 0
  · rw [if_pos h₁] at hr
    cases hr
    exact .inl ⟨h₁, rfl⟩
  rw [if_neg h₁] at hr
  by_cases h₂ : size = 0
  · rw [if_pos h₂] at hr
    cases hr
    exact .inr (.inl ⟨h₁, h₂, by rw [h₂]⟩)
  rw [if_neg h₂] at hr
  by_cases h₃ : pVirtual = 0
  · rw [if_pos h₃] at hr
    cases hr
    exact .inr (.inr (.inl ⟨h₁, h₂, .inl h₃, rfl⟩))
  rw [if_neg h₃] at hr
  by_cases h₄ : ans.pa pVirtual = 0
  · rw [if_pos h₄] at hr
    cases hr
    exact .inr (.inr (.inl ⟨h₁, h₂, .inr (.inl h₄), rfl⟩))
  rw [if_neg h₄] at hr
  by_cases h₅ : ans.sels = 0
  · rw [if_pos h₅] at hr
    cases hr
    refine .inr (.inr (.inl ⟨h₁, h₂, .inr (.inr h₅), ?_⟩))
    rw [allocOps, if_pos h₅, List.append_nil]
  rw [if_neg h₅] at hr
  refine .inr (.inr (.inr ⟨h₁, h₂, h₃, h₄, h₅, ?_⟩))
  rw [allocOps, if_neg h₅] at hr
  split at hr
  · cases hr
  next g₁ segment hloop =>
    cases hr
    exact ⟨g₁, segment, true, hloop, .inl ⟨rfl, rfl⟩⟩
  next g₁ segment hloop =>
    obtain ⟨g₂, hf, rfl⟩ := Option.map_eq_some_iff.1 hr
    refine ⟨g₁, segment, false, hloop, .inr ⟨rfl, g₂, hf, ?_⟩⟩
    rw [List.append_assoc _ [_]]
    rfl

/-- What an allocation of a segment takes is in the segment that it returns. -/
theorem holds_lxAllocSegment {ans : SegmentAns} {type size virtAddr segptr : ULONG}
    {r : SegmentResult} (h : g.Holds t sels)
    (hr : lxAllocSegment t ans type size virtAddr segptr g = some r) :
    r.gdt.Holds t (r.ret.toList.flatMap Segment.selArray ++ sels) := by
  obtain ⟨-, rfl⟩ | ⟨-, -, rfl⟩ | ⟨-, -, -, rfl⟩ | ⟨-, -, -, -, -, g₁, segment, b, hloop, hret⟩ :=
    lxAllocSegment_cases hr
  · exact h
  · exact h
  · exact h
  -- the array is empty before the loop
  have h₁ : g₁.Holds t (segment.selArray ++ sels) := holds_selLoop h hloop
  obtain ⟨-, rfl⟩ | ⟨-, g₂, hf, rfl⟩ := hret
  · simpa using h₁
  · exact h₁.freeSels hf

end Functions

/-! ### The selectors in a run -/

namespace SelState

variable {t : GdtTable} {s s' : SelState} {a : SelAct}

/-- What every step preserves. -/
structure Inv (t : GdtTable) (s : SelState) : Prop where
  /-- The selectors in the mappings and the segments are those that are marked as used. -/
  holds : s.gdt.Holds t s.sels
  /-- There is an entry for a mapping of every selector. -/
  length_mmem : s.mmem.length = 64

theorem inv_initial : Inv t initial := by
  refine ⟨?_, List.length_replicate ..⟩
  have hfilter : initial.sels.filter (fun sel => sel ≠ 0) = [] := by
    simp [sels, initial]
  rw [Gdt.Holds, hfilter]
  exact Slots.accounts_nil

/-- The segments without one that is freed. -/
theorem sels_perm_erase {p : Segment} (hp : p ∈ s.live) :
    s.sels.Perm (p.selArray ++
      (s.mmem.map MappedMem.sel ++ (s.live.erase p).flatMap Segment.selArray)) := by
  have hlive := ((List.perm_cons_erase hp).flatMap_right Segment.selArray).append_left
    (s.mmem.map MappedMem.sel)
  refine hlive.trans ?_
  rw [List.flatMap_cons]
  exact List.perm_append_comm_assoc ..

theorem inv_step (hi : Inv t s) (h : step t s a = some s') : Inv t s' := by
  cases a with
  | ioremap thread addr usSize ans =>
    obtain ⟨⟨g, mmem, linaddr⟩, hr, rfl⟩ := Option.map_eq_some_iff.1 h
    obtain ⟨hholds, hlen⟩ := holds_ioremap hi.length_mmem hi.holds hr
    exact ⟨hholds, hlen⟩
  | iounmap addr table =>
    obtain ⟨⟨g, mmem⟩, hr, rfl⟩ := Option.map_eq_some_iff.1 h
    obtain ⟨hholds, hlen⟩ := holds_iounmap hi.length_mmem hi.holds hr
    exact ⟨hholds, hlen⟩
  | allocSegment type size virtAddr segptr ans =>
    simp only [step] at h
    split_ifs at h
    obtain ⟨r, hr, rfl⟩ := Option.map_eq_some_iff.1 h
    refine ⟨?_, hi.length_mmem⟩
    have hholds := holds_lxAllocSegment hi.holds hr
    refine hholds.perm ?_
    simp only [sels, List.flatMap_append]
    exact List.perm_append_comm_assoc ..
  | freeSegment segment table =>
    simp only [step] at h
    split_ifs at h
    · cases h; exact hi
    cases hfind : s.live.find? fun p => p.addr = segment with
    | none => rw [hfind] at h; cases h
    | some p =>
      simp only [hfind] at h
      obtain ⟨r, hr, rfl⟩ := Option.map_eq_some_iff.1 h
      obtain ⟨g, hf, rfl⟩ := Option.map_eq_some_iff.1 hr
      refine ⟨?_, hi.length_mmem⟩
      exact (hi.holds.perm (sels_perm_erase (List.mem_of_find?_eq_some hfind))).freeSels hf

/-- **Accounting.**  In every run the selectors that are marked as used are exactly those that the
mappings and segments hold, and no selector is held twice. -/
theorem always_accounted (t : GdtTable) (as : List SelAct) :
    (machine t).Always (Accounted t) initial as :=
  Machine.always_of_along (I := Inv t) (fun _ hi => hi.holds)
    (fun _ _ _ hi _ h => inv_step hi h) inv_initial (Machine.along_anyStep _ as)

/-- Two mappings, of which the first is given back. -/
example :
    let ans : RemapAns := ⟨(true, true), fun _ _ _ => true, fun sel => some (sel.setWidth 32)⟩
    let as : List SelAct := [.ioremap ⟨7, 1⟩ 0xa0000 4096 ans, .ioremap ⟨7, 1⟩ 0xb0000 4096 ans,
      .iounmap 8 true]
    ((machine .numbered).exec initial as).map held = some [16] := by
  decide

end SelState

end LxApi32
