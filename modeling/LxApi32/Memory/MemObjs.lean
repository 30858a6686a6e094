import LxApi32.Kernel.Stacks
import LxApi32.Lib.Arena
import LxApi32.Lib.FirstMatch
import LxApi32.Lib.Machine
import Mathlib.Data.List.Pairwise

/-!
# The registry of memory objects

`memobjs` is a list of descriptors: blocks that `__LX_malloc` has handed out, physical pages that
`LX__va` has mapped, and translations that `LX__pa` has looked up.  New ones come to the front, a
lookup by a virtual or by a physical address takes the first match.

This file has the functions as the source has them, each with the operations it asks of
`DevVMAlloc` and `DevVMFree`, and the machine whose actions are calls with the answers of the
system.  A descriptor, a block and a mapping are blocks of the system's memory.

`LX__pa` frees the new descriptor by `LX_free` if `DevLinToPageList` fails, while it holds
`memlist_lock`, which that function takes: the call does not return, nor does any later one.
-/

namespace LxApi32

/-- The types of descriptors. -/
inductive MemType
  /-- `LXMT_UNKNOWN` -/
  | unknown
  /-- `LXMT_NORMAL_MALLOC` -/
  | normalMalloc
  /-- `LXMT_PHYS_TO_VIRT` -/
  | physToVirt
  /-- `LXMT_VIRT_TO_PHYS` -/
  | virtToPhys
  deriving DecidableEq, Repr

/-- `struct lx_memobj` -/
structure MemObj where
  /-- The address of the descriptor. -/
  addr : ULONG
  /-- `virtAddr` -/
  virtAddr : ULONG
  /-- `physAddr` -/
  physAddr : ULONG
  /-- `unalignedAddr` -/
  unalignedAddr : ULONG
  /-- `size` -/
  size : ULONG
  /-- `realsize` -/
  realsize : ULONG
  /-- `memflags` -/
  memflags : BitVec 16
  /-- `type` -/
  type : MemType
  /-- `pid` and `tid` -/
  thread : ThreadId
  deriving DecidableEq, Repr

/-- What a block of the system's memory is for. -/
inductive VmKind
  /-- A descriptor. -/
  | descriptor
  /-- A block that `__LX_malloc` hands out. -/
  | block
  /-- A page that `LX__va` maps. -/
  | mapping
  deriving DecidableEq, Repr

/-- A block that `DevVMAlloc` has returned, and the part of it that is used. -/
structure VmBlock where
  /-- Its address. -/
  base : ULONG
  /-- The bytes it has. -/
  realsize : ULONG
  /-- The address that is used. -/
  virt : ULONG
  /-- The bytes that are used. -/
  size : ULONG
  /-- What it is for. -/
  kind : VmKind
  deriving DecidableEq, Repr

/-- Operations of `DevVMAlloc` and `DevVMFree`. -/
abbrev VmOp := Arena.Op ULONG VmBlock

namespace VmBlock

/-- The part that is used is in the block. -/
def Wf (b : VmBlock) : Prop :=
  b.base.toNat ≤ b.virt.toNat ∧ b.virt.toNat < b.base.toNat + b.realsize.toNat ∧
    b.virt.toNat + b.size.toNat ≤ b.base.toNat + b.realsize.toNat

/-- Two blocks have no byte in common. -/
def Apart (b c : VmBlock) : Prop :=
  b.base.toNat + b.realsize.toNat ≤ c.base.toNat ∨ c.base.toNat + c.realsize.toNat ≤ b.base.toNat

/-- The address is in the part that is used. -/
def Inside (b : VmBlock) (a : ULONG) : Prop :=
  b.virt.toNat ≤ a.toNat ∧ a.toNat < b.virt.toNat + b.size.toNat

instance : DecidablePred Wf := fun _ => inferInstanceAs (Decidable (_ ∧ _ ∧ _))

instance : DecidableRel Apart := fun _ _ => inferInstanceAs (Decidable (_ ∨ _))

instance : Std.Symm Apart := ⟨fun _ _ => Or.symm⟩

instance (b : VmBlock) : DecidablePred b.Inside := fun _ => inferInstanceAs (Decidable (_ ∧ _))

end VmBlock

/-- What `LXA_VMAllocAligned` returns; `virt` is `0` if there is no memory. -/
structure AlignedMem where
  /-- `real_mem`, the address that `DevVMAlloc` has returned -/
  base : ULONG
  /-- `real_size` -/
  realsize : ULONG
  /-- The aligned address. -/
  virt : ULONG
  deriving DecidableEq, Repr

/-- What a function does: the list afterwards, the operations it asks for, what it returns. -/
structure MemResult where
  /-- `memobjs` -/
  memobjs : List MemObj
  /-- The calls of `DevVMAlloc` that have succeeded, and those of `DevVMFree`. -/
  ops : List VmOp
  /-- The result. -/
  ret : ULONG
  deriving DecidableEq, Repr

/-- The bytes of a descriptor. -/
def sizeofMemobj : ULONG := 36

/-- `PAGE_SIZE` -/
def pageSize : ULONG := 4096

/-- The memory of a descriptor. -/
def MemObj.descriptor (pm : MemObj) : VmBlock :=
  ⟨pm.addr, sizeofMemobj, pm.addr, sizeofMemobj, .descriptor⟩

/-- `LX_alloc_memobj`: `raw` is the memory that `DevVMAlloc` returns, with what is in it. -/
def allocMemobj (thread : ThreadId) (raw : Option MemObj) : Option MemObj :=
  raw.map fun pm => { pm with thread, type := .unknown }

/-- The address that a lookup compares. -/
def MemObj.key (bPhysAddr : Bool) (pm : MemObj) : ULONG :=
  if bPhysAddr then pm.physAddr else pm.virtAddr

/-- `LX_find_memobj` -/
def findMemobj (addr : ULONG) (bPhysAddr : Bool) (memobjs : List MemObj) : Option MemObj :=
  memobjs.find? fun pm => pm.key bPhysAddr = addr

/-- `list_del` of the entry that `LX_find_memobj(ptr,0)` finds. -/
def delMemobj (ptr : ULONG) (memobjs : List MemObj) : List MemObj :=
  memobjs.eraseP fun pm => pm.virtAddr = ptr

/-- Set `physAddr` of the entry that `LX_find_memobj(address,0)` finds. -/
def setPhysAddr (address physAddr : ULONG) : List MemObj → List MemObj
  | [] => []
  | pm :: rest =>
    if pm.virtAddr = address then { pm with physAddr } :: rest
    else pm :: setPhysAddr address physAddr rest

/-- `__LX_free` -/
def lxFree (ptr : ULONG) (memobjs : List MemObj) : MemResult :=
  match findMemobj ptr false memobjs with
  | some pm =>
    if pm.type = .normalMalloc ∨ pm.type = .physToVirt then
      ⟨delMemobj ptr memobjs, [.free pm.unalignedAddr, .free pm.addr], 0⟩
    else ⟨memobjs, [.free ptr], 0⟩
  | none => ⟨memobjs, [.free ptr], 0⟩

/-- `__LX_malloc` -/
def lxMalloc (thread : ThreadId) (size flags : ULONG) (raw : Option MemObj) (mem : AlignedMem)
    (memobjs : List MemObj) : MemResult :=
  match allocMemobj thread raw with
  | none => ⟨memobjs, [], 0⟩
  | some pm =>
    let pm := { pm with memflags := flags.setWidth 16, size, physAddr := 0, type := .normalMalloc }
    if mem.virt = 0 then ⟨memobjs, [.alloc pm.descriptor, .free pm.addr], 0⟩
    else
      let pm := { pm with
        virtAddr := mem.virt, realsize := mem.realsize, unalignedAddr := mem.base }
      ⟨pm :: memobjs,
        [.alloc pm.descriptor, .alloc ⟨mem.base, mem.realsize, mem.virt, size, .block⟩],
        pm.virtAddr⟩

/-- `LX__pa`; `pages` tells whether `DevLinToPageList` succeeds, and `phys` what it returns. -/
def lxPa (thread : ThreadId) (phys : ULONG → ULONG) (address : ULONG) (raw : Option MemObj)
    (pages : Bool) (memobjs : List MemObj) : Option MemResult :=
  match findMemobj address false memobjs with
  | some pm =>
    let physAddr := if pm.physAddr = 0 ∧ pages then phys pm.virtAddr else pm.physAddr
    some ⟨setPhysAddr address physAddr memobjs, [], physAddr⟩
  | none =>
    match allocMemobj thread raw with
    | none => some ⟨memobjs, [], 0⟩
    | some pm =>
      let pm := { pm with
        virtAddr := address, unalignedAddr := address, memflags := 0, size := pageSize
        type := .virtToPhys }
      if pages then
        let pm := { pm with physAddr := phys pm.virtAddr }
        some ⟨pm :: memobjs, [.alloc pm.descriptor], pm.physAddr⟩
      -- `LX_free` waits for `memlist_lock`
      else none

/-- `LX__va`; `virt` is the address at which the page is mapped, `0` if it cannot be. -/
def lxVa (thread : ThreadId) (address : ULONG) (raw : Option MemObj) (virt : ULONG)
    (memobjs : List MemObj) : MemResult :=
  match findMemobj address true memobjs with
  | some pm => ⟨memobjs, [], pm.virtAddr⟩
  | none =>
    match allocMemobj thread raw with
    | none => ⟨memobjs, [], 0⟩
    | some pm =>
      let pm := { pm with
        physAddr := address, unalignedAddr := address, memflags := 0, size := pageSize
        type := .physToVirt }
      if virt = 0 then ⟨memobjs, [.alloc pm.descriptor, .free pm.addr], 0⟩
      else
        let pm := { pm with virtAddr := virt }
        ⟨pm :: memobjs, [.alloc pm.descriptor, .alloc ⟨virt, pageSize, virt, pageSize, .mapping⟩],
          pm.virtAddr⟩

/-- A call with the answers of the system. -/
inductive MemAct
  /-- `__LX_malloc` -/
  | malloc (thread : ThreadId) (size flags : ULONG) (raw : Option MemObj) (mem : AlignedMem)
  /-- `__LX_free` -/
  | free (ptr : ULONG)
  /-- `LX__pa` -/
  | pa (thread : ThreadId) (address : ULONG) (raw : Option MemObj) (pages : Bool)
  /-- `LX__va` -/
  | va (thread : ThreadId) (address : ULONG) (raw : Option MemObj) (virt : ULONG)
  /-- The system moves memory. -/
  | remap (phys : ULONG → ULONG)

/-- The state. -/
structure Registry where
  /-- `memobjs` -/
  memobjs : List MemObj
  /-- The memory that the system has handed out. -/
  heap : List VmBlock
  /-- The pointers that `__LX_malloc` and `LX__va` have returned and that are not freed since. -/
  held : List ULONG
  /-- The physical addresses of virtual ones. -/
  phys : ULONG → ULONG

namespace Registry

/-- What a call does. -/
def result (s : Registry) : MemAct → Option MemResult
  | .malloc thread size flags raw mem => some (lxMalloc thread size flags raw mem s.memobjs)
  | .free ptr => some (lxFree ptr s.memobjs)
  | .pa thread address raw pages => lxPa thread s.phys address raw pages s.memobjs
  | .va thread address raw virt => some (lxVa thread address raw virt s.memobjs)
  | .remap _ => some ⟨s.memobjs, [], 0⟩

/-- The pointers that are held after a call that returns `ret`. -/
def holds (held : List ULONG) (ret : ULONG) : MemAct → List ULONG
  | .malloc .. | .va .. => if ret = 0 then held else held.insert ret
  | .free ptr => held.erase ptr
  | _ => held

/-- The physical addresses after an action. -/
def moves (phys : ULONG → ULONG) : MemAct → ULONG → ULONG
  | .remap phys' => phys'
  | _ => phys

/-- Only pointers that are held are freed. -/
def Holds (s : Registry) : MemAct → Prop
  | .free ptr => ptr ∈ s.held
  | _ => True

instance (s : Registry) : DecidablePred s.Holds := fun
  | .free ptr => inferInstanceAs (Decidable (ptr ∈ s.held))
  | .malloc .. | .pa .. | .va .. | .remap _ => .isTrue trivial

/-- The step function. -/
def step (s : Registry) (a : MemAct) : Option Registry :=
  if s.Holds a then
    (s.result a).map fun r =>
      ⟨r.memobjs, Arena.run VmBlock.base s.heap r.ops, holds s.held r.ret a, moves s.phys a⟩
  else none

/-- No memory, with some physical addresses. -/
def initial (phys : ULONG → ULONG) : Registry := ⟨[], [], [], phys⟩

/-- The machine of the registry. -/
def machine (phys : ULONG → ULONG) : Machine Registry MemAct := ⟨initial phys, step⟩

/-- What the system does: a block that it hands out is a proper one and apart from those that are
allocated. -/
def SystemOk (s : Registry) (a : MemAct) : Prop :=
  ∀ r ∈ s.result a,
    (∀ b ∈ Arena.allocs r.ops, b.Wf) ∧ Arena.Fresh VmBlock.base VmBlock.Apart s.heap r.ops

instance (s : Registry) : DecidablePred s.SystemOk := fun _ =>
  inferInstanceAs (Decidable (∀ r ∈ _, _ ∧ _))

end Registry

/-! ### Lookups -/

section Lookup

variable {addr ptr : ULONG} {b : Bool} {pm : MemObj} {memobjs : List MemObj}

theorem findMemobj_eq_none :
    findMemobj addr b memobjs = none ↔ ∀ pm ∈ memobjs, pm.key b ≠ addr := by
  simp [findMemobj]

theorem findMemobj_mem (h : findMemobj addr b memobjs = some pm) :
    pm ∈ memobjs ∧ pm.key b = addr :=
  ⟨List.mem_of_find?_eq_some h, by simpa using List.find?_some h⟩

/-- The entry that a free takes out, and the others. -/
theorem exists_delMemobj (h : findMemobj ptr false memobjs = some pm) :
    ∃ front back, memobjs = front ++ pm :: back ∧ delMemobj ptr memobjs = front ++ back := by
  obtain ⟨-, front, back, hmem, -, hdel⟩ := FirstMatch.exists_append h
  exact ⟨front, back, hmem, hdel⟩

theorem setPhysAddr_eq {address physAddr : ULONG} : setPhysAddr address physAddr memobjs =
    modifyFirst (fun pm => pm.virtAddr = address) (fun pm => { pm with physAddr }) memobjs :=
  FirstMatch.eq_modifyFirst rfl fun _ _ => rfl

end Lookup

/-! ### The system's memory -/

namespace Registry

variable {s s' : Registry} {a : MemAct}

/-- All blocks are proper and apart. -/
structure HeapOk (heap : List VmBlock) : Prop where
  /-- They are proper. -/
  wf : ∀ b ∈ heap, b.Wf
  /-- They are apart. -/
  apart : heap.Pairwise VmBlock.Apart

/-- A used address belongs to one block. -/
theorem HeapOk.eq_of_virt {heap : List VmBlock} (h : HeapOk heap) {b c : VmBlock} (hb : b ∈ heap)
    (hc : c ∈ heap) (hvirt : b.virt = c.virt) : b = c := by
  by_contra hne
  have hbwf := h.wf b hb
  have hcwf := h.wf c hc
  rcases h.apart.forall hb hc hne with hbc | hbc <;>
    simp only [VmBlock.Wf, hvirt] at hbwf hcwf <;> omega

/-- A block is found by its address. -/
theorem HeapOk.eq_of_base {heap : List VmBlock} (h : HeapOk heap) {b c : VmBlock} (hb : b ∈ heap)
    (hc : c ∈ heap) (hbase : b.base = c.base) : b = c := by
  by_contra hne
  have hbwf := h.wf b hb
  have hcwf := h.wf c hc
  rcases h.apart.forall hb hc hne with hbc | hbc <;>
    simp only [VmBlock.Wf, hbase] at hbwf hcwf hbc <;> omega

theorem HeapOk.base_ne_of_apart {heap : List VmBlock} (h : HeapOk heap) {b c : VmBlock}
    (hc : c ∈ heap) (hb : b.Wf) (hbc : b.Apart c) : b.base ≠ c.base := by
  intro heq
  have hcwf := h.wf c hc
  rcases hbc with hbc | hbc <;> simp only [VmBlock.Wf, heq] at hb hcwf hbc <;> omega

theorem HeapOk.nodup {heap : List VmBlock} (h : HeapOk heap) :
    (heap.map VmBlock.base).Nodup := by
  refine List.pairwise_map.2 (h.apart.imp_of_mem fun {b c} hb hc hbc => ?_)
  exact h.base_ne_of_apart hc (h.wf b hb) hbc

theorem heapOk_run {heap : List VmBlock} {ops : List VmOp} (h : HeapOk heap)
    (hwf : ∀ b ∈ Arena.allocs ops, b.Wf)
    (hfresh : Arena.Fresh VmBlock.base VmBlock.Apart heap ops) :
    HeapOk (Arena.run VmBlock.base heap ops) :=
  ⟨Arena.forall_run h.wf hwf, Arena.pairwise_run h.apart hfresh⟩

/-- A step that is taken, with what the call does. -/
theorem step_eq_some (h : step s a = some s') : s.Holds a ∧ ∃ r, s.result a = some r ∧
    s' = ⟨r.memobjs, Arena.run VmBlock.base s.heap r.ops, holds s.held r.ret a,
      moves s.phys a⟩ := by
  unfold step at h
  split_ifs at h with hholds
  obtain ⟨r, hr, hs⟩ := Option.map_eq_some_iff.1 h
  exact ⟨hholds, r, hr, hs.symm⟩

/-- What the system does keeps the blocks apart, whatever is freed. -/
theorem heapOk_step (hs : HeapOk s.heap) (hsys : s.SystemOk a) (h : step s a = some s') :
    HeapOk s'.heap := by
  obtain ⟨-, r, hr, rfl⟩ := step_eq_some h
  obtain ⟨hwf, hfresh⟩ := hsys r hr
  exact heapOk_run hs hwf hfresh

end Registry

end LxApi32
