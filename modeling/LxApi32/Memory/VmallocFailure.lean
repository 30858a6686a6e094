import LxApi32.Lib.Align
import LxApi32.Lib.Issued
import LxApi32.Memory.Pages
import LxApi32.Memory.Vmalloc

/-!
# When `__vmalloc` fails

`__vmalloc` needs memory for a `vm_struct`, for the array of its page pointers, and from
`LX_alloc_num_pages` for an entry and the pages.  It gives back what it has got when one of the
first two is missing, the second time by the address of its gap.  It does not look at what
`LX_alloc_num_pages` returns, and `map_vm_area`, which cannot fail, reads the first page.

* `VmallocSys.clean_iff` : a call that cannot get some memory returns NULL and leaves everything as
  it was exactly if `LX_alloc_num_pages` is not what fails, and no area in front of the gap has its
  address when the array is missing.
* `VmallocSys.map_vmalloc` : on the list of areas it is the `__vmalloc` of `Memory.Vmalloc`.
* `VmallocSys.Sane.vmalloc` : every call leaves the areas in different blocks.

A block of `kmalloc` or `LX_malloc` is known by a number that no other block ever has.
-/

namespace LxApi32

/-- `struct vm_struct` -/
structure VmArea extends VmStruct where
  /-- The block in which it is. -/
  block : ℕ
  /-- `pages`, with the block in which they are. -/
  pages : Option (ℕ × List (Option PagePtr))
  deriving DecidableEq, Repr

/-- What a call of `__vmalloc` gets. -/
structure VmallocMemory where
  /-- `kmalloc` in `__get_vm_area` -/
  area : Bool
  /-- `kmalloc` of the page pointers. -/
  pages : Bool
  /-- `LX_malloc` in `LX_alloc_num_pages` -/
  entry : Bool
  /-- `LX_malloc_gfp` in `LX_alloc_num_pages` -/
  start : Option ULONG
  deriving DecidableEq, Repr

/-- What the list of areas has of it. -/
def VmallocMemory.toMem (mem : VmallocMemory) : VmallocMem :=
  ⟨mem.area, mem.pages, if mem.entry then mem.start else none⟩

/-- The state of the memory. -/
structure VmallocSys where
  /-- `vmlist` -/
  vmlist : List VmArea
  /-- The page allocator. -/
  pageSys : PageSys
  /-- The blocks that are allocated. -/
  heap : List ℕ
  /-- The number of the next block. -/
  next : ℕ
  deriving DecidableEq, Repr

namespace VmallocSys

/-- `kmalloc`, `LX_malloc` and `LX_malloc_gfp` -/
def kmalloc (s : VmallocSys) (ok : Bool) : Option ℕ × VmallocSys :=
  if ok then (some s.next, { s with heap := s.next :: s.heap, next := s.next + 1 }) else (none, s)

/-- `kfree` and `LX_free` -/
def kfree (s : VmallocSys) (block : ℕ) : VmallocSys := { s with heap := s.heap.erase block }

/-- `LX_alloc_num_pages` -/
def lxAllocNumPages (s : VmallocSys) (gfpMask numPages : ULONG) (entry : Bool)
    (start : Option ULONG) : Option PagePtr × VmallocSys :=
  match s.kmalloc entry with
  | (none, s) => (none, s)
  | (some lpe, s) =>
    match s.kmalloc start.isSome with
    | (none, s) => (none, s.kfree lpe)
    | (some _, s) =>
      (some (s.pageSys.sizes.length, 0),
        { s with pageSys := s.pageSys.lxAllocNumPages gfpMask numPages entry start })

/-- `page_address`, which reads the page. -/
def pageAddress (s : VmallocSys) (page : Option PagePtr) : Option ULONG := do
  let page ← page
  let lpe ← s.pageSys.lxPages.find? fun e => e.lpe = page.1
  let page ← lpe.pages[page.2]?
  some page.virtual

/-- `__get_vm_area`: the areas in front of the new one, that, and those behind it. -/
def getVmArea (lim : VmallocLimits) (size : ULONG) (ok : Bool) (s : VmallocSys) :
    Option (List VmArea × VmArea × List VmArea) × VmallocSys :=
  match s.kmalloc ok with
  | (none, s) => (none, s)
  | (some block, s) =>
    match LxApi32.getVmArea lim size true (s.vmlist.map VmArea.toVmStruct) with
    | none => (none, s.kfree block)
    | some (front, area, _) =>
      let area : VmArea := { area with block, pages := none }
      let n := front.length
      (some (s.vmlist.take n, area, s.vmlist.drop n),
        { s with vmlist := s.vmlist.take n ++ area :: s.vmlist.drop n })

/-- `remove_vm_area` -/
def removeVmArea (addr : ULONG) (s : VmallocSys) : VmallocSys :=
  { s with vmlist := s.vmlist.eraseP fun tmp => tmp.addr = addr }

/-- `map_vm_area`, which returns 0, unless it reads a page that is not there. -/
def mapVmArea (area : VmArea) (s : VmallocSys) : Option VmArea := do
  let pages ← area.pages
  let addr ← s.pageAddress (← pages.2[0]?)
  some { area with addr }

/-- `area->pages[i]=&(page[i])` -/
def pagePtrs (page : Option PagePtr) (n : ℕ) : List (Option PagePtr) :=
  (List.range n).map fun i => page.map fun pg => (pg.1, pg.2 + i)

/-- `__vmalloc` with its new area.  There is no result where it reads a page that is not there. -/
def vmallocArea (gfpMask nrPages : ULONG) (mem : VmallocMemory) (front : List VmArea)
    (area : VmArea) (back : List VmArea) (s : VmallocSys) : Option (VmallocSys × ULONG) :=
  match s.kmalloc mem.pages with
  | (none, s) => some ((s.removeVmArea area.addr).kfree area.block, 0)
  | (some pages, s) =>
    let (page, s) := s.lxAllocNumPages gfpMask nrPages mem.entry mem.start
    let area := { area with nrPages, pages := some (pages, pagePtrs page nrPages.toNat) }
    (mapVmArea area s).map fun area => ({ s with vmlist := front ++ area :: back }, area.addr)

/-- `__vmalloc` -/
def vmalloc (lim : VmallocLimits) (gfpMask size : ULONG) (mem : VmallocMemory) (s : VmallocSys) :
    Option (VmallocSys × ULONG) :=
  let size := pageAlign size
  if size = 0 ∨ lim.numPhyspages < size >>> 12 then some (s, 0)
  else match s.getVmArea lim size mem.area with
    | (none, s) => some (s, 0)
    | (some (front, area, back), s) => s.vmallocArea gfpMask (size >>> 12) mem front area back

/-- The list, the entries of the page allocator and the memory are the same. -/
structure Same (s s' : VmallocSys) : Prop where
  /-- `vmlist` -/
  vmlist : s'.vmlist = s.vmlist
  /-- The entries. -/
  pageSys : s'.pageSys = s.pageSys
  /-- The memory. -/
  heap : s'.heap = s.heap

/-- What `get_vm_area` finds. -/
def reserved (lim : VmallocLimits) (size : ULONG) (mem : VmallocMemory) (s : VmallocSys) :
    Option (List VmStruct × VmStruct × List VmStruct) :=
  reserve lim size mem.area (s.vmlist.map VmArea.toVmStruct)

/-- One of the steps fails. -/
def Fails (lim : VmallocLimits) (size : ULONG) (mem : VmallocMemory) (s : VmallocSys) : Prop :=
  s.reserved lim size mem = none ∨ mem.pages = false ∨ mem.entry = false ∨ mem.start = none

/-- A call that fails returns NULL, and leaves everything as it was. -/
def Clean (lim : VmallocLimits) (gfpMask size : ULONG) (mem : VmallocMemory) (s : VmallocSys) :
    Prop :=
  s.Fails lim size mem → ∃ s', s.vmalloc lim gfpMask size mem = some (s', 0) ∧ s.Same s'

/-- `LX_alloc_num_pages` gets what it needs if it is called; an area for which there are no page
pointers is found by its address. -/
def CleanWhen (lim : VmallocLimits) (size : ULONG) (mem : VmallocMemory) (s : VmallocSys) : Prop :=
  ∀ r ∈ s.reserved lim size mem,
    if mem.pages then mem.entry = true ∧ mem.start ≠ none
    else ∀ a ∈ r.1, a.addr ≠ r.2.1.addr

/-- The areas are in different blocks that have been given out. -/
def Sane (s : VmallocSys) : Prop := Issued (s.vmlist.map VmArea.block) s.next

variable {lim : VmallocLimits} {gfpMask size addr : ULONG} {mem : VmallocMemory} {s s' : VmallocSys}
  {front back : List VmArea} {area : VmArea}

/-- The page pointers are missing, or the memory of `LX_alloc_num_pages`, or nothing is. -/
theorem memory_cases (mem : VmallocMemory) :
    mem.pages = false ∨ mem.pages = true ∧ (mem.entry = false ∨ mem.start = none) ∨
      mem.pages = true ∧ mem.entry = true ∧ ∃ addr, mem.start = some addr := by
  cases mem.pages with
  | false => exact .inl rfl
  | true =>
    cases mem.entry with
    | false => exact .inr (.inl ⟨rfl, .inl rfl⟩)
    | true =>
      cases mem.start with
      | none => exact .inr (.inl ⟨rfl, .inr rfl⟩)
      | some addr => exact .inr (.inr ⟨rfl, rfl, addr, rfl⟩)

/-! ### Blocks -/

theorem kmalloc_true (s : VmallocSys) :
    s.kmalloc true = (some s.next, { s with heap := s.next :: s.heap, next := s.next + 1 }) :=
  rfl

theorem kmalloc_false (s : VmallocSys) : s.kmalloc false = (none, s) := rfl

/-- A block that is freed again. -/
theorem kfree_cons (l : List VmArea) (pageSys : PageSys) (block : ℕ) (heap : List ℕ) (next : ℕ) :
    kfree ⟨l, pageSys, block :: heap, next⟩ block = ⟨l, pageSys, heap, next⟩ := by
  unfold kfree
  dsimp only
  rw [List.erase_cons_head]

/-- The new area has a block that no other one has. -/
theorem Sane.block_ne (h : s.Sane) {a : VmArea} (ha : a ∈ s.vmlist) : a.block ≠ s.next :=
  (h.lt _ (List.mem_map_of_mem ha)).ne

/-! ### `get_vm_area` -/

/-- What `get_vm_area` leaves. -/
theorem getVmArea_cases (lim : VmallocLimits) (size : ULONG) (ok : Bool) (s : VmallocSys) :
    (LxApi32.getVmArea lim size ok (s.vmlist.map VmArea.toVmStruct) = none ∧
      ∃ next, s.next ≤ next ∧ s.getVmArea lim size ok = (none, { s with next })) ∨
    ∃ front area back, s.vmlist = front ++ back ∧ area.block = s.next ∧
      LxApi32.getVmArea lim size ok (s.vmlist.map VmArea.toVmStruct) =
        some (front.map VmArea.toVmStruct, area.toVmStruct, back.map VmArea.toVmStruct) ∧
      s.getVmArea lim size ok = (some (front, area, back),
        ⟨front ++ area :: back, s.pageSys, s.next :: s.heap, s.next + 1⟩) := by
  cases ok with
  | false => exact .inl ⟨rfl, s.next, Nat.le_refl _, rfl⟩
  | true =>
    unfold VmallocSys.getVmArea
    rw [kmalloc_true]
    dsimp only
    cases hgap : LxApi32.getVmArea lim size true (s.vmlist.map VmArea.toVmStruct) with
    | none =>
      dsimp only
      rw [kfree_cons]
      exact .inl ⟨rfl, s.next + 1, Nat.le_succ _, rfl⟩
    | some r =>
      obtain ⟨front, area, back⟩ := r
      have hlist : front ++ back = s.vmlist.map VmArea.toVmStruct := by
        have htrue : ¬ true = false := by decide
        unfold LxApi32.getVmArea at hgap
        rw [if_neg htrue] at hgap
        dsimp only at hgap
        split_ifs at hgap
        obtain ⟨r, hloop, heq⟩ := Option.map_eq_some_iff.1 hgap
        cases heq
        exact Vmalloc.getVmAreaLoop_append hloop
      have hfront : (s.vmlist.take front.length).map VmArea.toVmStruct = front := by
        rw [List.map_take, ← hlist, List.take_left]
      have hback : (s.vmlist.drop front.length).map VmArea.toVmStruct = back := by
        rw [List.map_drop, ← hlist, List.drop_left]
      refine .inr ⟨s.vmlist.take front.length, { area with block := s.next, pages := none },
        s.vmlist.drop front.length, (List.take_append_drop ..).symm, rfl, ?_, rfl⟩
      rw [hfront, hback]

/-! ### `LX_alloc_num_pages` -/

/-- Without its memory `LX_alloc_num_pages` returns NULL. -/
theorem lxAllocNumPages_none (h : mem.entry = false ∨ mem.start = none) (numPages : ULONG) :
    (s.lxAllocNumPages gfpMask numPages mem.entry mem.start).1 = none := by
  unfold lxAllocNumPages
  cases hentry : mem.entry with
  | false => rfl
  | true =>
    have hstart : mem.start = none := h.resolve_left (by rw [hentry]; decide)
    rw [hstart]
    rfl

theorem lxAllocNumPages_some (s : VmallocSys) (gfpMask numPages addr : ULONG) :
    s.lxAllocNumPages gfpMask numPages true (some addr) = (some (s.pageSys.sizes.length, 0),
      ⟨s.vmlist, s.pageSys.lxAllocNumPages gfpMask numPages true (some addr),
        (s.next + 1) :: s.next :: s.heap, s.next + 2⟩) :=
  rfl

/-- The first page is then read from NULL. -/
theorem mapVmArea_none {pages n : ℕ} (h : area.pages = some (pages, pagePtrs none n)) :
    mapVmArea area s = none := by
  unfold mapVmArea
  rw [h]
  cases n with
  | zero => rfl
  | succ n =>
    have hfirst : (pagePtrs none (n + 1))[0]? = some none := by simp [pagePtrs]
    dsimp only [Option.bind_eq_bind, Option.bind_some]
    rw [hfirst]
    rfl

/-! ### `__vmalloc` -/

/-- There is no gap, or `__vmalloc` goes on with one. -/
theorem vmalloc_cases (lim : VmallocLimits) (gfpMask size : ULONG) (mem : VmallocMemory)
    (s : VmallocSys) :
    (s.reserved lim size mem = none ∧
      ∃ next, s.next ≤ next ∧ s.vmalloc lim gfpMask size mem = some ({ s with next }, 0)) ∨
    ∃ front area back, s.vmlist = front ++ back ∧ area.block = s.next ∧
      s.reserved lim size mem =
        some (front.map VmArea.toVmStruct, area.toVmStruct, back.map VmArea.toVmStruct) ∧
      s.vmalloc lim gfpMask size mem =
        vmallocArea gfpMask (pageAlign size >>> 12) mem front area back
          ⟨front ++ area :: back, s.pageSys, s.next :: s.heap, s.next + 1⟩ := by
  unfold reserved reserve vmalloc
  dsimp only
  split_ifs with hsize
  · exact .inl ⟨rfl, s.next, Nat.le_refl _, rfl⟩
  · rcases getVmArea_cases lim (pageAlign size) mem.area s with ⟨hgap, next, hnext, hget⟩ |
      ⟨front, area, back, hlist, hblock, hgap, hget⟩
    · rw [hget]
      exact .inl ⟨hgap, next, hnext, rfl⟩
    · rw [hget]
      exact .inr ⟨front, area, back, hlist, hblock, hgap, rfl⟩

/-- Without the array the area is looked for by its address. -/
theorem vmallocArea_noPages (h : mem.pages = false) (hblock : area.block = s.next)
    (nrPages : ULONG) :
    vmallocArea gfpMask nrPages mem front area back
        ⟨front ++ area :: back, s.pageSys, s.next :: s.heap, s.next + 1⟩ =
      some (⟨(front ++ area :: back).eraseP fun tmp => tmp.addr = area.addr, s.pageSys, s.heap,
        s.next + 1⟩, 0) := by
  unfold vmallocArea
  rw [h, kmalloc_false, hblock]
  dsimp only [removeVmArea]
  rw [kfree_cons]

/-- Without the pages, the first one is read from NULL. -/
theorem vmallocArea_noMemory (h : mem.pages = true) (hmem : mem.entry = false ∨ mem.start = none)
    (nrPages : ULONG) : vmallocArea gfpMask nrPages mem front area back s = none := by
  unfold vmallocArea
  rw [h, kmalloc_true]
  dsimp only
  rw [lxAllocNumPages_none hmem, mapVmArea_none rfl]
  rfl

/-- The areas that are left are those that were there before exactly if the one that is found by the
address is the new one. -/
theorem eraseP_eq_iff (hnew : ∀ a ∈ front ++ back, a.block ≠ area.block) :
    (front ++ area :: back).eraseP (fun tmp => tmp.addr = area.addr) = front ++ back ↔
      ∀ a ∈ front, a.addr ≠ area.addr := by
  constructor
  · intro h a ha hsame
    rw [List.eraseP_append_left (by simpa using hsame) _ ha] at h
    have hmem : area ∈ front ++ back :=
      h ▸ List.mem_append_right _ List.mem_cons_self
    exact hnew area hmem rfl
  · intro h
    have hfront : ∀ a ∈ front, ¬ (decide (a.addr = area.addr) = true) := by simpa using h
    rw [List.eraseP_append_right _ hfront, List.eraseP_cons_of_pos (by simp)]

/-- **When a failure of `__vmalloc` is clean.** -/
theorem clean_iff (h : s.Sane) (lim : VmallocLimits) (gfpMask size : ULONG) (mem : VmallocMemory) :
    s.Clean lim gfpMask size mem ↔ s.CleanWhen lim size mem := by
  unfold Clean Fails CleanWhen
  rcases vmalloc_cases lim gfpMask size mem s with ⟨hnone, next, -, hcall⟩ |
    ⟨front, area, back, hlist, hblock, hsome, hcall⟩
  · rw [hnone]
    exact iff_of_true (fun _ => ⟨_, hcall, rfl, rfl, rfl⟩) nofun
  rw [hsome, hcall]
  simp only [Option.mem_def, Option.some.injEq, forall_eq', reduceCtorEq, false_or]
  rcases memory_cases mem with hpages | ⟨hpages, hno⟩ | ⟨hpages, hentry, addr, hstart⟩
  · have hnew : ∀ a ∈ front ++ back, a.block ≠ area.block := fun a ha =>
      hblock ▸ h.block_ne (hlist ▸ ha)
    have hmap : (∀ a ∈ front.map VmArea.toVmStruct, a.addr ≠ area.addr) ↔
        ∀ a ∈ front, a.addr ≠ area.addr := List.forall_mem_map
    have hfalse : ¬ mem.pages = true := Bool.not_eq_true _ ▸ hpages
    rw [vmallocArea_noPages hpages hblock, if_neg hfalse, hmap, ← eraseP_eq_iff hnew]
    constructor
    · intro hclean
      obtain ⟨s', hs', hsame⟩ := hclean (.inl hpages)
      cases hs'
      exact hsame.vmlist.trans hlist
    · intro herase _
      exact ⟨_, rfl, herase.trans hlist.symm, rfl, rfl⟩
  · rw [vmallocArea_noMemory hpages hno, if_pos hpages]
    refine iff_of_false (fun hclean => ?_) (fun hgets => ?_)
    · obtain ⟨s', hs', -⟩ := hclean (.inr hno)
      cases hs'
    · rcases hno with hfalse | hnone
      · exact absurd (hgets.1.symm.trans hfalse) (by decide)
      · exact hgets.2 hnone
  · -- nothing fails
    rw [if_pos hpages, hpages, hentry, hstart]
    exact iff_of_true (by simp) (by simp)

/-! ### The list of areas -/

/-- There is a page in what `get_vm_area` is asked for. -/
theorem pages_pos {r : List VmStruct × VmStruct × List VmStruct}
    (h : s.reserved lim size mem = some r) : 0 < (pageAlign size >>> 12).toNat := by
  have hsize : pageAlign size ≠ 0 := by
    intro h0
    rw [reserved, reserve, if_pos (.inl h0)] at h
    cases h
  have hmask : (0xfff : ULONG) = lowMask 32 12 := rfl
  have halign : (pageAlign size).toNat = (size + 0xfff).toNat / 2 ^ 12 * 2 ^ 12 := by
    unfold pageAlign
    rw [hmask, toNat_and_not_lowMask _ (by decide)]
  have hne : (pageAlign size).toNat ≠ 0 := fun h0 => hsize (BitVec.eq_of_toNat_eq h0)
  rw [BitVec.toNat_ushiftRight, Nat.shiftRight_eq_div_pow]
  omega

/-- With its memory `LX_alloc_num_pages` makes an entry, and its first page is at the address. -/
theorem mapVmArea_some {pages n : ℕ} {numPages : ULONG} (hn : 0 < n) (hpos : 0 < numPages.toNat)
    (h : area.pages = some (pages, pagePtrs (some (s.pageSys.sizes.length, 0)) n))
    (hpages : s'.pageSys = s.pageSys.lxAllocNumPages gfpMask numPages true (some addr)) :
    mapVmArea area s' = some { area with addr } := by
  have hfirst : (pagePtrs (some (s.pageSys.sizes.length, 0)) n)[0]? =
      some (some (s.pageSys.sizes.length, 0)) := by
    obtain ⟨n, rfl⟩ := Nat.exists_eq_succ_of_ne_zero hn.ne'
    simp [pagePtrs]
  have haddress : s'.pageAddress (some (s.pageSys.sizes.length, 0)) = some addr := by
    obtain ⟨n, hn⟩ := Nat.exists_eq_succ_of_ne_zero hpos.ne'
    unfold pageAddress PageSys.lxAllocNumPages at *
    rw [hpages]
    simp [newPgEntry, hn]
  unfold mapVmArea
  rw [h]
  dsimp only [Option.bind_eq_bind, Option.bind_some]
  rw [hfirst]
  dsimp only [Option.bind_eq_bind, Option.bind_some]
  rw [haddress]
  rfl

/-- With all its memory the area is at its first page. -/
theorem vmallocArea_some (hpages : mem.pages = true) (hentry : mem.entry = true)
    (hstart : mem.start = some addr) {nrPages : ULONG} (hpos : 0 < nrPages.toNat) :
    vmallocArea gfpMask nrPages mem front area back s =
      some (⟨front ++ ⟨⟨addr, area.size, nrPages⟩, area.block,
          some (s.next, pagePtrs (some (s.pageSys.sizes.length, 0)) nrPages.toNat)⟩ :: back,
        s.pageSys.lxAllocNumPages gfpMask nrPages true (some addr),
        (s.next + 2) :: (s.next + 1) :: s.next :: s.heap, s.next + 3⟩, addr) := by
  unfold vmallocArea
  rw [hpages, kmalloc_true, hentry, hstart]
  dsimp only
  rw [lxAllocNumPages_some]
  dsimp only
  rw [mapVmArea_some hpos hpos rfl rfl]
  rfl

/-- **What becomes of the list** is what `LxApi32.vmalloc` says. -/
theorem map_vmalloc (lim : VmallocLimits) (gfpMask size : ULONG) (mem : VmallocMemory)
    (s : VmallocSys) :
    (s.vmalloc lim gfpMask size mem).map (fun r => (r.1.vmlist.map VmArea.toVmStruct, r.2)) =
      LxApi32.vmalloc lim size mem.toMem (s.vmlist.map VmArea.toVmStruct) := by
  unfold LxApi32.vmalloc
  rcases vmalloc_cases lim gfpMask size mem s with ⟨hnone, next, -, hcall⟩ |
    ⟨front, area, back, -, hblock, hsome, hcall⟩
  · rw [hcall, show reserve lim size mem.toMem.area _ = none from hnone, Option.map_some]
  rw [hcall, show reserve lim size mem.toMem.area _ = some _ from hsome]
  dsimp only
  rcases memory_cases mem with hpages | ⟨hpages, hno⟩ | ⟨hpages, hentry, addr, hstart⟩
  · have hmem : mem.toMem.pages = false := hpages
    rw [vmallocArea_noPages hpages hblock, if_pos hmem, Option.map_some]
    unfold LxApi32.removeVmArea
    rw [← List.map_cons, ← List.map_append, List.eraseP_map]
    rfl
  · have hmem : ¬ mem.toMem.pages = false := Bool.not_eq_false _ ▸ hpages
    have hnone : mem.toMem.block = none := by
      show (if mem.entry = true then mem.start else none) = none
      rcases hno with hentry | hstart
      · rw [hentry, if_neg Bool.false_ne_true]
      · rw [hstart, ite_self]
    rw [vmallocArea_noMemory hpages hno, if_neg hmem, hnone]
    rfl
  · have hmem : ¬ mem.toMem.pages = false := Bool.not_eq_false _ ▸ hpages
    have hsome' : mem.toMem.block = some addr := (if_pos hentry).trans hstart
    rw [vmallocArea_some hpages hentry hstart (pages_pos hsome), if_neg hmem, hsome',
      Option.map_some, List.map_append]
    rfl

/-- Every call leaves the areas in different blocks. -/
theorem Sane.vmalloc (h : s.Sane) {ret : ULONG}
    (hs : s.vmalloc lim gfpMask size mem = some (s', ret)) : s'.Sane := by
  rcases vmalloc_cases lim gfpMask size mem s with ⟨-, next, hnext, hcall⟩ |
    ⟨front, area, back, hlist, hblock, hsome, hcall⟩
  · rw [hcall] at hs
    cases hs
    exact h.mono hnext
  have hold : Issued ((front ++ back).map VmArea.block) s.next := hlist ▸ h
  -- the new area, or what becomes of it
  have hnew {area' : VmArea} (hsame : area'.block = s.next) :
      Issued ((front ++ area' :: back).map VmArea.block) (s.next + 1) := by
    refine hold.cons ?_
    rw [← hsame, ← List.map_cons]
    exact List.perm_middle.map _
  rw [hcall] at hs
  rcases memory_cases mem with hpages | ⟨hpages, hno⟩ | ⟨hpages, hentry, addr, hstart⟩
  · rw [vmallocArea_noPages hpages hblock] at hs
    cases hs
    exact (hnew hblock).subperm_map List.eraseP_sublist.subperm
  · rw [vmallocArea_noMemory hpages hno] at hs
    cases hs
  · rw [vmallocArea_some hpages hentry hstart (pages_pos hsome)] at hs
    cases hs
    unfold Sane
    refine Issued.mono (hnew ?_) (Nat.le_add_right (s.next + 1) 3)
    exact hblock

/-- A machine without any area. -/
def empty : VmallocSys := ⟨[], ⟨[], [], [], []⟩, [], 0⟩

theorem sane_empty : empty.Sane := Issued.nil

/-- There is no memory for the page pointers. -/
theorem clean_noPages : empty.Clean Vmalloc.limits256MB 0 4096 ⟨true, false, true, none⟩ := by
  refine (clean_iff sane_empty _ _ _ _).2 fun r hr => ?_
  have hgap : empty.reserved Vmalloc.limits256MB 4096 ⟨true, false, true, none⟩ =
      some ([], ⟨0x800000, 8192, 0⟩, []) := by decide
  rw [hgap] at hr
  cases hr
  exact nofun

/-- There are no pages. -/
theorem not_clean_noStart : ¬ empty.Clean Vmalloc.limits256MB 0 4096 ⟨true, true, true, none⟩ := by
  intro h
  obtain ⟨s', hs', -⟩ := h (.inr (.inr (.inr rfl)))
  have hnone : empty.vmalloc Vmalloc.limits256MB 0 4096 ⟨true, true, true, none⟩ = none := by decide
  rw [hnone] at hs'
  cases hs'

end VmallocSys

end LxApi32
