import LxApi32.Daemon.Packet
import LxApi32.Lib.Machine
import LxApi32.Lib.Ranges

/-!
# The list of the areas of `vmalloc`

`__get_vm_area` goes through `vmlist`, which it takes to be sorted, for the first gap that is large
enough for the area and a guard page, and puts the new area there with the address of the gap.
`map_vm_area` then gives the area the address of its first page instead, wherever the page allocator
has put that.

* `Vmalloc.always_ordered_iff` : the list stays sorted and its areas stay apart exactly if the pages
  of every new area, with a guard page behind, fit between the areas in front of the gap and those
  behind it, and if an area that is taken out again for want of memory is found by its address.
-/

namespace LxApi32

/-- `struct vm_struct` of an area that `__vmalloc` has made. -/
structure VmStruct where
  /-- `addr` -/
  addr : ULONG
  /-- `size`, with the guard page. -/
  size : ULONG
  /-- `nr_pages` -/
  nrPages : ULONG
  deriving DecidableEq, Repr

/-- Where the areas can be, and how large. -/
structure VmallocLimits where
  /-- `VMALLOC_START` -/
  start : ULONG
  /-- `VMALLOC_END` -/
  stop : ULONG
  /-- `num_physpages` -/
  numPhyspages : ULONG

/-- What a call of `__vmalloc` gets. -/
structure VmallocMem where
  /-- There is memory for the `vm_struct`. -/
  area : Bool
  /-- There is memory for `area->pages`. -/
  pages : Bool
  /-- The address of the pages, if there are any. -/
  block : Option ULONG

/-- `PAGE_ALIGN` -/
def pageAlign (size : ULONG) : ULONG := (size + 0xfff) &&& ~~~0xfff

/-- The loop of `__get_vm_area`: the areas in front of the new one, its address, and those behind
it. -/
def getVmAreaLoop (size stop : ULONG) :
    ULONG → List VmStruct → Option (List VmStruct × ULONG × List VmStruct)
  | addr, [] => some ([], addr, [])
  | addr, tmp :: rest =>
    if tmp.addr < addr then
      (getVmAreaLoop size stop addr rest).map fun r => (tmp :: r.1, r.2)
    else if size + addr < addr then none
    else if size + addr ≤ tmp.addr then some ([], addr, tmp :: rest)
    else
      let addr := tmp.size + tmp.addr
      if stop - size < addr then none
      else (getVmAreaLoop size stop addr rest).map fun r => (tmp :: r.1, r.2)

/-- `get_vm_area`; `area` tells whether there is memory for the area. -/
def getVmArea (lim : VmallocLimits) (size : ULONG) (area : Bool) (vmlist : List VmStruct) :
    Option (List VmStruct × VmStruct × List VmStruct) :=
  if area = false then none
  else
    -- the guard page
    let size := size + 4096
    if size = 0 then none
    else (getVmAreaLoop size lim.stop lim.start vmlist).map fun r => (r.1, ⟨r.2.1, size, 0⟩, r.2.2)

/-- `remove_vm_area` -/
def removeVmArea (addr : ULONG) (vmlist : List VmStruct) : List VmStruct :=
  vmlist.eraseP fun tmp => tmp.addr = addr

/-- `__vmalloc` gets as far as `get_vm_area`, with a size of whole pages. -/
def reserve (lim : VmallocLimits) (size : ULONG) (area : Bool) (vmlist : List VmStruct) :
    Option (List VmStruct × VmStruct × List VmStruct) :=
  let size := pageAlign size
  if size = 0 ∨ lim.numPhyspages < size >>> 12 then none else getVmArea lim size area vmlist

/-- `__vmalloc`: the list and what it returns. -/
def vmalloc (lim : VmallocLimits) (size : ULONG) (mem : VmallocMem) (vmlist : List VmStruct) :
    Option (List VmStruct × ULONG) :=
  match reserve lim size mem.area vmlist with
  | none => some (vmlist, 0)
  | some (front, area, back) =>
    if mem.pages = false then some (removeVmArea area.addr (front ++ area :: back), 0)
    else match mem.block with
      -- `page_address(area->pages[0])` of a null pointer
      | none => none
      | some addr =>
        some (front ++ { area with addr, nrPages := pageAlign size >>> 12 } :: back, addr)

/-- `vfree` -/
def vfree (addr : ULONG) (vmlist : List VmStruct) : List VmStruct :=
  if addr = 0 then vmlist
  else if addr &&& 0xfff ≠ 0 then vmlist
  else removeVmArea addr vmlist

/-- A call. -/
inductive VmallocAct
  /-- `__vmalloc` -/
  | vmalloc (size : ULONG) (mem : VmallocMem)
  /-- `vfree` -/
  | vfree (addr : ULONG)

namespace Vmalloc

/-- The step function. -/
def step (lim : VmallocLimits) (vmlist : List VmStruct) : VmallocAct → Option (List VmStruct)
  | .vmalloc size mem => (vmalloc lim size mem vmlist).map Prod.fst
  | .vfree addr => some (vfree addr vmlist)

/-- The machine of the list. -/
def machine (lim : VmallocLimits) : Machine (List VmStruct) VmallocAct := ⟨[], step lim⟩

/-- The first address of an area. -/
def lo (a : VmStruct) : ℕ := a.addr.toNat

/-- The address behind an area. -/
def hi (a : VmStruct) : ℕ := a.addr.toNat + a.size.toNat

/-- `vmlist` is sorted by address, and its areas are apart. -/
def Ordered (vmlist : List VmStruct) : Prop := Ranges.Ordered lo hi vmlist

/-- An area for which `__vmalloc` has found a gap: its pages fit between the areas on both sides, or
it can be taken out again by its address. -/
def FitsGap (mem : VmallocMem) (r : List VmStruct × VmStruct × List VmStruct) : Prop :=
  (mem.pages = false → ∀ a ∈ r.1, a.addr ≠ r.2.1.addr) ∧
    (mem.pages = true → ∀ addr ∈ mem.block, (∀ a ∈ r.1, hi a ≤ addr.toNat) ∧
      ∀ b ∈ r.2.2, addr.toNat + r.2.1.size.toNat ≤ lo b)

/-- The area of a `__vmalloc` fits where its gap is. -/
def Fits (lim : VmallocLimits) (vmlist : List VmStruct) : VmallocAct → Prop
  | .vmalloc size mem => ∀ r ∈ reserve lim size mem.area vmlist, FitsGap mem r
  | .vfree _ => True

variable {lim : VmallocLimits} {size stop addr : ULONG} {s s' front back : List VmStruct}
  {area : VmStruct} {act : VmallocAct}

/-! ### The search for a gap -/

/-- The search cuts the list in two. -/
theorem getVmAreaLoop_append {addr' : ULONG}
    (h : getVmAreaLoop size stop addr s = some (front, addr', back)) : front ++ back = s := by
  induction s generalizing addr front with
  | nil =>
    cases h
    rfl
  | cons tmp rest ih =>
    unfold getVmAreaLoop at h
    dsimp only at h
    split_ifs at h
    · obtain ⟨⟨front', r⟩, hr, heq⟩ := Option.map_eq_some_iff.1 h
      cases heq
      rw [List.cons_append, ih hr]
    · cases h
      rfl
    · obtain ⟨⟨front', r⟩, hr, heq⟩ := Option.map_eq_some_iff.1 h
      cases heq
      rw [List.cons_append, ih hr]

/-- The address of the gap is above those of the areas in front of it, unless an area in front of it
ends above 4 GB. -/
theorem getVmAreaLoop_addr {addr' : ULONG} (hpos : ∀ a ∈ s, lo a < hi a)
    (hs : s.Pairwise fun a b => hi a ≤ lo b)
    (h : getVmAreaLoop size stop addr s = some (front, addr', back)) :
    (addr.toNat ≤ addr'.toNat ∧ ∀ a ∈ front, lo a < addr'.toNat) ∨
      ∃ a ∈ front, addr'.toNat < lo a := by
  induction s generalizing addr front with
  | nil =>
    cases h
    exact .inl ⟨le_refl _, nofun⟩
  | cons tmp rest ih =>
    obtain ⟨htmp, hpos⟩ := List.forall_mem_cons.1 hpos
    obtain ⟨hbehind, hs⟩ := List.pairwise_cons.1 hs
    have hlo : lo tmp = tmp.addr.toNat := rfl
    have hhi : hi tmp = tmp.addr.toNat + tmp.size.toNat := rfl
    unfold getVmAreaLoop at h
    dsimp only at h
    split_ifs at h with hskip
    · -- an area below `addr`
      obtain ⟨⟨front', r⟩, hr, heq⟩ := Option.map_eq_some_iff.1 h
      cases heq
      have hskip' := BitVec.lt_def.1 hskip
      rcases ih hpos hs hr with ⟨hle, hlt⟩ | ⟨a, ha, hlt⟩
      · exact .inl ⟨hle, List.forall_mem_cons.2 ⟨by omega, hlt⟩⟩
      · exact .inr ⟨a, List.mem_cons_of_mem _ ha, hlt⟩
    · cases h
      exact .inl ⟨le_refl _, nofun⟩
    · -- an area with too small a gap in front
      obtain ⟨⟨front', r⟩, hr, heq⟩ := Option.map_eq_some_iff.1 h
      cases heq
      have hsum : (tmp.size + tmp.addr).toNat = hi tmp % 2 ^ 32 := by
        rw [BitVec.toNat_add, hi, Nat.add_comm]
      have hge : addr.toNat ≤ tmp.addr.toNat := Nat.le_of_not_lt (mt BitVec.lt_def.2 hskip)
      by_cases hwrap : hi tmp < 2 ^ 32
      · rw [Nat.mod_eq_of_lt hwrap] at hsum
        rcases ih hpos hs hr with ⟨hle, hlt⟩ | ⟨a, ha, hlt⟩
        · exact .inl ⟨by omega, List.forall_mem_cons.2 ⟨by omega, hlt⟩⟩
        · exact .inr ⟨a, List.mem_cons_of_mem _ ha, hlt⟩
      · -- the last area
        have hnil : rest = [] := by
          refine List.eq_nil_iff_forall_not_mem.2 fun b hb => ?_
          have hle := hbehind b hb
          have hlt : lo b < 2 ^ 32 := b.addr.isLt
          omega
        subst hnil
        cases hr
        refine .inr ⟨tmp, List.mem_cons_self, ?_⟩
        have hlt := tmp.size.isLt
        have hlt' := tmp.addr.isLt
        omega

/-- What `__vmalloc` reserves. -/
theorem reserve_eq_some {mem : Bool} (h : reserve lim size mem s = some (front, area, back)) :
    front ++ back = s ∧ 0 < area.size.toNat ∧
      getVmAreaLoop area.size lim.stop lim.start s = some (front, area.addr, back) := by
  unfold reserve getVmArea at h
  dsimp only at h
  split_ifs at h with hsize hmem hzero
  obtain ⟨⟨front', addr', back'⟩, hr, heq⟩ := Option.map_eq_some_iff.1 h
  cases heq
  refine ⟨getVmAreaLoop_append hr, ?_, hr⟩
  exact Nat.pos_of_ne_zero fun h0 => hzero (BitVec.eq_of_toNat_eq h0)

/-! ### Steps -/

/-- The list is in order, and its areas are not empty. -/
structure Good (vmlist : List VmStruct) : Prop where
  /-- The order. -/
  ordered : Ordered vmlist
  /-- The areas. -/
  pos : ∀ a ∈ vmlist, lo a < hi a

theorem Good.pairwise (h : Good s) : s.Pairwise fun a b => hi a ≤ lo b :=
  (Ranges.ordered_iff h.pos).1 h.ordered

theorem good_of_pairwise (hpos : ∀ a ∈ s, lo a < hi a) (h : s.Pairwise fun a b => hi a ≤ lo b) :
    Good s :=
  ⟨(Ranges.ordered_iff hpos).2 h, hpos⟩

/-- Taking an area out. -/
theorem Good.removeVmArea (h : Good s) (addr : ULONG) : Good (removeVmArea addr s) :=
  good_of_pairwise (fun a ha => h.pos a (List.mem_of_mem_eraseP ha))
    (h.pairwise.sublist List.eraseP_sublist)

theorem Good.vfree (h : Good s) (addr : ULONG) : Good (LxApi32.vfree addr s) := by
  unfold LxApi32.vfree
  split_ifs
  · exact h
  · exact h
  · exact h.removeVmArea addr

/-- **A new area** leaves the list in order exactly if it fits to those on both sides. -/
theorem ordered_insert_iff {a : VmStruct} (h : Good (front ++ back)) (ha : 0 < a.size.toNat) :
    Ordered (front ++ a :: back) ↔ (∀ b ∈ front, hi b ≤ lo a) ∧ ∀ b ∈ back, hi a ≤ lo b := by
  have hpos : ∀ b ∈ front ++ a :: back, lo b < hi b := by
    intro b hb
    rcases List.mem_append.1 hb with hb | hb
    · exact h.pos b (List.mem_append_left _ hb)
    · rcases List.mem_cons.1 hb with rfl | hb
      · exact Nat.lt_add_of_pos_right ha
      · exact h.pos b (List.mem_append_right _ hb)
  exact (Ranges.ordered_iff hpos).trans (Ranges.pairwise_insert h.pairwise)

/-- An area that is taken out again by its address leaves the list as it was, if no area in front
has the address. -/
theorem removeVmArea_insert (h : ∀ a ∈ front, a.addr ≠ area.addr) :
    removeVmArea area.addr (front ++ area :: back) = front ++ back := by
  have hfront : ∀ a ∈ front, ¬ (decide (a.addr = area.addr) = true) := by simpa using h
  rw [removeVmArea, List.eraseP_append_right _ hfront, List.eraseP_cons_of_pos (by simp)]

/-- If one has, that one is taken out, and the list is not sorted any more. -/
theorem not_ordered_removeVmArea (h : Good (front ++ back))
    (hgap : getVmAreaLoop size stop addr (front ++ back) = some (front, area.addr, back))
    {a : VmStruct} (ha : a ∈ front) (hsame : a.addr = area.addr) :
    ¬ Ordered (removeVmArea area.addr (front ++ area :: back)) := by
  rcases getVmAreaLoop_addr h.pos h.pairwise hgap with ⟨-, hlt⟩ | ⟨top, htop, hlt⟩
  · exact absurd (congrArg BitVec.toNat hsame) (hlt a ha).ne
  · intro hord
    have hne : top.addr ≠ area.addr := fun heq => hlt.ne (congrArg BitVec.toNat heq).symm
    rw [removeVmArea, List.eraseP_append_left (by simpa using hsame) _ ha] at hord
    have hmem : top ∈ front.eraseP fun tmp => decide (tmp.addr = area.addr) :=
      (List.mem_eraseP_of_neg (by simpa using hne)).2 htop
    have hle : lo top ≤ lo area :=
      (List.pairwise_append.1 hord.sorted).2.2 top hmem area List.mem_cons_self
    exact absurd hlt (Nat.not_lt_of_le hle)

/-- What a call leaves, if there is a gap. -/
theorem step_vmalloc {mem : VmallocMem}
    (h : reserve lim size mem.area s = some (front, area, back))
    (hs : (machine lim).step s (.vmalloc size mem) = some s') :
    (mem.pages = false ∧ s' = removeVmArea area.addr (front ++ area :: back)) ∨
      mem.pages = true ∧ ∃ addr nrPages, mem.block = some addr ∧
        s' = front ++ ⟨addr, area.size, nrPages⟩ :: back := by
  obtain ⟨⟨list, ret⟩, hstep, rfl⟩ := Option.map_eq_some_iff.1 hs
  unfold vmalloc at hstep
  rw [h] at hstep
  dsimp only at hstep
  split_ifs at hstep with hpages
  · cases hstep
    exact .inl ⟨hpages, rfl⟩
  · cases hblock : mem.block with
    | none =>
      rw [hblock] at hstep
      cases hstep
    | some addr =>
      rw [hblock] at hstep
      obtain ⟨hlist, -⟩ := Prod.mk.inj (Option.some.inj hstep)
      exact .inr ⟨by simpa using hpages, addr, _, rfl, hlist.symm⟩

theorem step_vmalloc_none {mem : VmallocMem} (h : reserve lim size mem.area s = none)
    (hs : (machine lim).step s (.vmalloc size mem) = some s') : s' = s := by
  obtain ⟨⟨list, ret⟩, hstep, rfl⟩ := Option.map_eq_some_iff.1 hs
  unfold vmalloc at hstep
  rw [h] at hstep
  cases hstep
  rfl

theorem good_step (h : Good s) (hfits : Fits lim s act) (hs : (machine lim).step s act = some s') :
    Good s' := by
  cases act with
  | vfree addr =>
    cases hs
    exact h.vfree addr
  | vmalloc size mem =>
    cases hr : reserve lim size mem.area s with
    | none => exact step_vmalloc_none hr hs ▸ h
    | some r =>
      obtain ⟨front, area, back⟩ := r
      obtain ⟨hlist, hpos, hgap⟩ := reserve_eq_some hr
      have hgap' : FitsGap mem (front, area, back) := hfits _ hr
      subst hlist
      rcases step_vmalloc hr hs with ⟨hpages, rfl⟩ | ⟨hpages, addr, nrPages, hblock, rfl⟩
      · rw [removeVmArea_insert (hgap'.1 hpages)]
        exact h
      · refine ⟨(ordered_insert_iff h (by exact hpos)).2 (hgap'.2 hpages addr hblock),
          fun a ha => ?_⟩
        rcases List.mem_append.1 ha with ha | ha
        · exact h.pos a (List.mem_append_left _ ha)
        · rcases List.mem_cons.1 ha with rfl | ha
          · exact Nat.lt_add_of_pos_right hpos
          · exact h.pos a (List.mem_append_right _ ha)

theorem fits_of_ordered (h : Good s) (hs : (machine lim).step s act = some s')
    (hord : Ordered s') : Fits lim s act := by
  cases act with
  | vfree addr => trivial
  | vmalloc size mem =>
    rintro ⟨front, area, back⟩ hr
    obtain ⟨hlist, hpos, hgap⟩ := reserve_eq_some hr
    subst hlist
    rcases step_vmalloc hr hs with ⟨hpages, rfl⟩ | ⟨hpages, addr, nrPages, hblock, rfl⟩
    · refine ⟨fun _ a ha hsame => not_ordered_removeVmArea h hgap ha hsame hord, fun hall => ?_⟩
      exact absurd (hpages.symm.trans hall) Bool.false_ne_true
    · refine ⟨fun hnone => absurd (hnone.symm.trans hpages) Bool.false_ne_true, fun _ => ?_⟩
      intro addr' haddr
      cases hblock.symm.trans haddr
      exact (ordered_insert_iff h (by exact hpos)).1 hord

/-- **The list stays in order** exactly if the pages of every new area fit where its gap was. -/
theorem always_ordered_iff {as : List VmallocAct}
    (h : (machine lim).exec (machine lim).init as = some s') :
    (machine lim).Always Ordered (machine lim).init as ↔
      (machine lim).Along (Fits lim) (machine lim).init as :=
  Machine.always_iff_along (I := Good) (fun _ hgood => hgood.ordered)
    (fun _ _ _ hgood hfits hs => good_step hgood hfits hs)
    (fun _ _ _ hgood hs hord => fits_of_ordered hgood hs hord)
    (good_of_pairwise nofun .nil) h

/-- A machine of 256 MB. -/
def limits256MB : VmallocLimits := ⟨0x800000, 0xffff0000, 65536⟩

/-- All goes well, and the pages are at an address. -/
def memAt (addr : ULONG) : VmallocMem := ⟨true, true, some addr⟩

theorem fits_memAt {r : List VmStruct × VmStruct × List VmStruct}
    (hr : reserve lim size true s = some r) (hfront : ∀ a ∈ r.1, hi a ≤ addr.toNat)
    (hback : ∀ b ∈ r.2.2, addr.toNat + r.2.1.size.toNat ≤ lo b) :
    Fits lim s (.vmalloc size (memAt addr)) := by
  intro r' hr'
  cases hr.symm.trans hr'
  refine ⟨nofun, fun _ addr' haddr => ?_⟩
  cases haddr
  exact ⟨hfront, hback⟩

/-- The pages of the second area lie below those of the first one, which is freed. -/
theorem always_ordered_descending :
    (machine limits256MB).Always Ordered []
      [.vmalloc 4096 (memAt 0x1008000), .vmalloc 5000 (memAt 0x1004000), .vfree 0x1008000] := by
  have h₁ : (machine limits256MB).step [] (.vmalloc 4096 (memAt 0x1008000)) =
      some [⟨0x1008000, 8192, 1⟩] := by decide
  have h₂ : (machine limits256MB).step [⟨0x1008000, 8192, 1⟩] (.vmalloc 5000 (memAt 0x1004000)) =
      some [⟨0x1004000, 12288, 2⟩, ⟨0x1008000, 8192, 1⟩] := by decide
  have h₃ : (machine limits256MB).step [⟨0x1004000, 12288, 2⟩, ⟨0x1008000, 8192, 1⟩]
      (.vfree 0x1008000) = some [⟨0x1004000, 12288, 2⟩] := by decide
  have hrun : (machine limits256MB).exec [] [.vmalloc 4096 (memAt 0x1008000),
      .vmalloc 5000 (memAt 0x1004000), .vfree 0x1008000] = some [⟨0x1004000, 12288, 2⟩] := by
    simp only [Machine.exec, h₁, h₂, h₃, Option.bind_some]
  have hfits₁ : Fits limits256MB [] (.vmalloc 4096 (memAt 0x1008000)) :=
    fits_memAt (r := ([], ⟨0x800000, 8192, 0⟩, [])) (by decide) (by decide) (by decide)
  have hfits₂ : Fits limits256MB [⟨0x1008000, 8192, 1⟩] (.vmalloc 5000 (memAt 0x1004000)) :=
    fits_memAt (r := ([], ⟨0x800000, 12288, 0⟩, [⟨0x1008000, 8192, 1⟩])) (by decide) (by decide)
      (by decide)
  exact (always_ordered_iff hrun).2 (Machine.along_cons hfits₁ h₁
    (Machine.along_cons hfits₂ h₂ (Machine.along_cons trivial h₃ trivial)))

/-- Two areas whose pages were handed out in ascending order. -/
theorem not_always_ordered_ascending :
    ¬ (machine limits256MB).Always Ordered []
      [.vmalloc 4096 (memAt 0x1000000), .vmalloc 4096 (memAt 0x1002000)] := by
  intro h
  have hrun : (machine limits256MB).exec []
      [.vmalloc 4096 (memAt 0x1000000), .vmalloc 4096 (memAt 0x1002000)] =
      some [⟨0x1002000, 8192, 1⟩, ⟨0x1000000, 8192, 1⟩] := by decide
  exact absurd (h.last hrun).sorted (by decide)

end Vmalloc

end LxApi32
