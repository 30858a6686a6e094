import LxApi32.Memory.MemObjs

/-!
# What `__LX_free` releases

The memory of the system that is allocated is what the entries of `memobjs` own: each its
descriptor, and a block or a mapping with it.  `__LX_free` passes the `unalignedAddr` of the entry
to `DevVMFree`.  For a block that is its address, but `LX__va` writes the physical address of the
page there.  If the entry is a cached translation, or there is none, the pointer itself is passed.

* `Registry.along_released_iff` : along every run all addresses that are freed are allocated, and
  each free releases a block and its descriptor, exactly if each pointer that is freed is found as
  one of a block, or of a mapping at its own physical address.
-/

namespace LxApi32

/-- The memory that belongs to an entry. -/
def MemObj.owned (pm : MemObj) : List VmBlock :=
  match pm.type with
  | .normalMalloc =>
    [⟨pm.unalignedAddr, pm.realsize, pm.virtAddr, pm.size, .block⟩, pm.descriptor]
  | .physToVirt => [⟨pm.virtAddr, pm.size, pm.virtAddr, pm.size, .mapping⟩, pm.descriptor]
  | _ => [pm.descriptor]

namespace Registry

/-- Every address that an action frees is allocated; a free releases the block at the pointer, the
descriptor of an entry for it, and nothing else. -/
def Released (s : Registry) (a : MemAct) : Prop :=
  ∀ r ∈ s.result a, Arena.FreesAllocated VmBlock.base s.heap r.ops ∧
    ∀ ptr, a = .free ptr → ∃ b ∈ s.heap, ∃ d ∈ s.heap,
      b.kind ≠ .descriptor ∧ b.virt = ptr ∧ d.kind = .descriptor ∧
      (∃ pm ∈ s.memobjs, pm.virtAddr = ptr ∧ pm.addr = d.base) ∧
      ∀ c, c ∈ Arena.run VmBlock.base s.heap r.ops ↔ c ∈ s.heap ∧ c ≠ b ∧ c ≠ d

/-- The first entry of a pointer that is freed is a block, or a mapping at its physical address. -/
def Releasable (s : Registry) : MemAct → Prop
  | .free ptr => ∃ pm ∈ findMemobj ptr false s.memobjs,
      pm.type = .normalMalloc ∨ pm.type = .physToVirt ∧ pm.unalignedAddr = pm.virtAddr
  | _ => True

instance (s : Registry) : DecidablePred s.Releasable := fun
  | .free ptr => inferInstanceAs (Decidable (∃ pm ∈ findMemobj ptr false s.memobjs, _ ∨ _ ∧ _))
  | .malloc .. | .pa .. | .va .. | .remap _ => .isTrue trivial

/-- The memory that is allocated is what the entries own. -/
structure Owned (s : Registry) : Prop where
  /-- The blocks are proper and apart. -/
  heap : HeapOk s.heap
  /-- They belong to the entries. -/
  perm : s.heap.Perm (s.memobjs.flatMap MemObj.owned)

variable {s s' : Registry} {a : MemAct} {ptr : ULONG} {r : MemResult}

/-! ### What the functions ask for -/

/-- The three outcomes of a call that is no free: the entries own what they did, or memory is handed
out and given back at once, or a new entry owns the memory that is handed out. -/
inductive Acquires (memobjs : List MemObj) (r : MemResult) : Prop
  | nothing (hops : r.ops = [])
      (howned : r.memobjs.flatMap MemObj.owned = memobjs.flatMap MemObj.owned)
  | undone (d : VmBlock) (hops : r.ops = [.alloc d, .free d.base]) (hmem : r.memobjs = memobjs)
  | entry (pm : MemObj) (hops : r.ops = pm.owned.reverse.map .alloc)
      (hmem : r.memobjs = pm :: memobjs)

theorem owned_setPhysAddr {address physAddr : ULONG} {memobjs : List MemObj} :
    (setPhysAddr address physAddr memobjs).flatMap MemObj.owned =
      memobjs.flatMap MemObj.owned := by
  have howned : (setPhysAddr address physAddr memobjs).map MemObj.owned =
      memobjs.map MemObj.owned := by
    rw [setPhysAddr_eq]
    exact FirstMatch.map_modifyFirst fun _ => rfl
  rw [List.flatMap_def, howned, List.flatMap_def]

theorem acquires_lxMalloc {thread : ThreadId} {size flags : ULONG} {raw : Option MemObj}
    {mem : AlignedMem} {memobjs : List MemObj} :
    Acquires memobjs (lxMalloc thread size flags raw mem memobjs) := by
  unfold lxMalloc
  cases allocMemobj thread raw with
  | none => exact .nothing rfl rfl
  | some pm =>
    by_cases hvirt : mem.virt = 0
    · simp only [hvirt, if_true]
      exact .undone _ rfl rfl
    · simp only [hvirt, if_false]
      exact .entry _ rfl rfl

theorem acquires_lxPa {thread : ThreadId} {phys : ULONG → ULONG} {address : ULONG}
    {raw : Option MemObj} {pages : Bool} {memobjs : List MemObj}
    (h : lxPa thread phys address raw pages memobjs = some r) : Acquires memobjs r := by
  unfold lxPa at h
  cases hfind : findMemobj address false memobjs with
  | some pm =>
    rw [hfind] at h
    cases h
    exact .nothing rfl owned_setPhysAddr
  | none =>
    rw [hfind] at h
    cases hraw : allocMemobj thread raw with
    | none =>
      rw [hraw] at h
      cases h
      exact .nothing rfl rfl
    | some pm =>
      cases pages with
      | false => rw [hraw] at h; cases h
      | true =>
        rw [hraw] at h
        cases h
        exact .entry _ rfl rfl

theorem acquires_lxVa {thread : ThreadId} {address : ULONG} {raw : Option MemObj} {virt : ULONG}
    {memobjs : List MemObj} : Acquires memobjs (lxVa thread address raw virt memobjs) := by
  unfold lxVa
  cases findMemobj address true memobjs with
  | some pm => exact .nothing rfl rfl
  | none =>
    cases allocMemobj thread raw with
    | none => exact .nothing rfl rfl
    | some pm =>
      by_cases hvirt : virt = 0
      · simp only [hvirt, if_true]
        exact .undone _ rfl rfl
      · simp only [hvirt, if_false]
        exact .entry _ rfl rfl

theorem acquires_result (h : s.result a = some r) (ha : ∀ ptr, a ≠ .free ptr) :
    Acquires s.memobjs r := by
  cases a with
  | malloc => cases h; exact acquires_lxMalloc
  | free ptr => exact absurd rfl (ha ptr)
  | pa => exact acquires_lxPa h
  | va => cases h; exact acquires_lxVa
  | remap => cases h; exact .nothing rfl rfl

/-- The memory is what the entries own, as before. -/
theorem Acquires.perm {heap : List VmBlock} {memobjs : List MemObj} (h : Acquires memobjs r)
    (hheap : heap.Perm (memobjs.flatMap MemObj.owned)) (hok : HeapOk heap)
    (hwf : ∀ b ∈ Arena.allocs r.ops, b.Wf)
    (hfresh : Arena.Fresh VmBlock.base VmBlock.Apart heap r.ops) :
    (Arena.run VmBlock.base heap r.ops).Perm (r.memobjs.flatMap MemObj.owned) := by
  cases h with
  | nothing hops howned =>
    rw [hops, howned]
    exact hheap
  | undone d hops hmem =>
    rw [hops] at hwf hfresh
    have hne : ∀ c ∈ heap, c.base ≠ d.base := fun c hc heq =>
      hok.base_ne_of_apart hc (hwf d List.mem_cons_self) (hfresh.1 c hc) heq.symm
    rw [hops, hmem, Arena.run_alloc_free hne]
    exact hheap
  | entry pm hops hmem =>
    rw [hops, hmem, List.flatMap_cons]
    exact (Arena.run_map_alloc _).trans ((List.reverse_perm _).append hheap)

theorem Acquires.freesAllocated {heap : List VmBlock} {memobjs : List MemObj}
    (h : Acquires memobjs r) : Arena.FreesAllocated VmBlock.base heap r.ops := by
  cases h with
  | nothing hops => rw [hops]; trivial
  | undone d hops => rw [hops]; exact ⟨⟨d, List.mem_cons_self, rfl⟩, trivial⟩
  | entry pm hops => rw [hops]; exact Arena.freesAllocated_map_alloc _

/-! ### A free -/

theorem lxFree_owned {memobjs : List MemObj} {pm : MemObj}
    (h : findMemobj ptr false memobjs = some pm)
    (htype : pm.type = .normalMalloc ∨ pm.type = .physToVirt) :
    lxFree ptr memobjs =
      ⟨delMemobj ptr memobjs, [.free pm.unalignedAddr, .free pm.addr], 0⟩ := by
  simp only [lxFree, h, if_pos htype]

/-- The pointer itself is freed in all other cases. -/
theorem lxFree_other {memobjs : List MemObj} (h : ∀ pm, findMemobj ptr false memobjs = some pm →
    ¬ (pm.type = .normalMalloc ∨ pm.type = .physToVirt)) :
    lxFree ptr memobjs = ⟨memobjs, [.free ptr], 0⟩ := by
  unfold lxFree
  cases hfind : findMemobj ptr false memobjs with
  | none => rfl
  | some pm => exact if_neg (h pm hfind)

/-- A block, or a mapping at its physical address, with its descriptor. -/
theorem exists_owned {pm : MemObj} (h : pm.type = .normalMalloc ∨
    pm.type = .physToVirt ∧ pm.unalignedAddr = pm.virtAddr) :
    ∃ b, pm.owned = [b, pm.descriptor] ∧ b.base = pm.unalignedAddr ∧ b.virt = pm.virtAddr ∧
      b.kind ≠ .descriptor := by
  rcases h with h | ⟨h, haddr⟩
  · exact ⟨_, by rw [MemObj.owned, h], rfl, rfl, fun h => by cases h⟩
  · exact ⟨⟨pm.virtAddr, pm.size, pm.virtAddr, pm.size, .mapping⟩, by rw [MemObj.owned, h],
      haddr.symm, rfl, fun h => by cases h⟩

/-- The entry that is found, what it owns, and what the others own. -/
theorem Owned.perm_cons (hs : s.Owned) {pm : MemObj}
    (hfind : findMemobj ptr false s.memobjs = some pm) :
    s.heap.Perm (pm.owned ++ (delMemobj ptr s.memobjs).flatMap MemObj.owned) := by
  obtain ⟨front, back, hmem, hdel⟩ := exists_delMemobj hfind
  have hperm := hs.perm
  rw [hmem, List.flatMap_append, List.flatMap_cons] at hperm
  rw [hdel, List.flatMap_append]
  refine hperm.trans ?_
  rw [← List.append_assoc, ← List.append_assoc]
  exact List.perm_append_comm.append_right _

/-- **A free of a block or of such a mapping** releases it and its descriptor. -/
theorem free_releasable (hs : s.Owned) {pm : MemObj}
    (hfind : findMemobj ptr false s.memobjs = some pm)
    (h : pm.type = .normalMalloc ∨ pm.type = .physToVirt ∧ pm.unalignedAddr = pm.virtAddr) :
    s.Released (.free ptr) ∧ ∀ r ∈ s.result (.free ptr),
      (Arena.run VmBlock.base s.heap r.ops).Perm (r.memobjs.flatMap MemObj.owned) := by
  obtain ⟨b, howned, hbase, hvirt, hkind⟩ := exists_owned h
  obtain ⟨hmem, hkey⟩ := findMemobj_mem hfind
  have hperm := hs.perm_cons hfind
  rw [howned] at hperm
  have hb : b ∈ s.heap := hperm.mem_iff.2 List.mem_cons_self
  have hd : pm.descriptor ∈ s.heap :=
    hperm.mem_iff.2 (List.mem_cons_of_mem _ List.mem_cons_self)
  -- the two releases one after the other
  have hnd := hs.heap.nodup
  have hrun₁ : (Arena.release VmBlock.base b.base s.heap).Perm
      (pm.descriptor :: (delMemobj ptr s.memobjs).flatMap MemObj.owned) :=
    Arena.release_perm_of_perm_cons hperm hnd
  have hrun₂ : (Arena.release VmBlock.base pm.addr
      (Arena.release VmBlock.base b.base s.heap)).Perm
      ((delMemobj ptr s.memobjs).flatMap MemObj.owned) :=
    Arena.release_perm_of_perm_cons (b := pm.descriptor) hrun₁ (hnd.sublist
      (List.filter_sublist.map _))
  have hresult : s.result (.free ptr) = some
      ⟨delMemobj ptr s.memobjs, [.free b.base, .free pm.addr], 0⟩ := by
    rw [result, lxFree_owned hfind (h.imp_right And.left), hbase]
  constructor
  · rintro r hr
    obtain rfl : _ = r := Option.some.inj (hresult.symm.trans hr)
    refine ⟨⟨⟨b, hb, rfl⟩, ⟨pm.descriptor, hrun₁.mem_iff.2 List.mem_cons_self, rfl⟩, trivial⟩, ?_⟩
    rintro ptr' hptr
    obtain rfl : ptr = ptr' := MemAct.free.inj hptr
    refine ⟨b, hb, pm.descriptor, hd, hkind, hvirt.trans hkey, rfl, ⟨pm, hmem, hkey, rfl⟩, ?_⟩
    intro c
    have hnd' := (hperm.map VmBlock.base).nodup_iff.1 hnd
    simp only [List.cons_append, List.nil_append, List.map_cons, List.nodup_cons,
      List.mem_cons, not_or] at hnd'
    show c ∈ Arena.release _ _ (Arena.release _ _ _) ↔ _
    rw [hrun₂.mem_iff, hperm.mem_iff]
    simp only [List.cons_append, List.nil_append, List.mem_cons]
    constructor
    · intro hc
      have hcbase := List.mem_map_of_mem (f := VmBlock.base) hc
      refine ⟨.inr (.inr hc), ?_, ?_⟩
      · rintro rfl; exact hnd'.1.2 hcbase
      · rintro rfl; exact hnd'.2.1 hcbase
    · rintro ⟨rfl | rfl | hc, hcb, hcd⟩
      · exact absurd rfl hcb
      · exact absurd rfl hcd
      · exact hc
  · rintro r hr
    obtain rfl : _ = r := Option.some.inj (hresult.symm.trans hr)
    exact hrun₂

/-- Other frees do not release what the claim is about: the pointer itself is at most one block. -/
theorem releasable_of_released (hs : s.Owned) (h : s.Released (.free ptr)) :
    s.Releasable (.free ptr) := by
  by_contra hnot
  by_cases hother : ∀ pm, findMemobj ptr false s.memobjs = some pm →
      ¬ (pm.type = .normalMalloc ∨ pm.type = .physToVirt)
  · -- only the block at the pointer can be released
    obtain ⟨-, hrel⟩ := h _ (congrArg some (lxFree_other hother))
    obtain ⟨b, hb, d, hd, hkind, -, hdkind, -, hiff⟩ := hrel ptr rfl
    have hbase : ∀ c ∈ s.heap, c = b ∨ c = d → c.base = ptr := by
      intro c hc hbd
      by_contra hne
      obtain ⟨-, hcb, hcd⟩ := (hiff c).1 (Arena.mem_release.2 ⟨hc, hne⟩)
      exact hbd.elim hcb hcd
    have heq := hs.heap.eq_of_base hb hd
      ((hbase b hb (.inl rfl)).trans (hbase d hd (.inr rfl)).symm)
    exact hkind (heq ▸ hdkind)
  · -- a mapping at another address than its physical one
    push Not at hother
    obtain ⟨pm, hfind, htype⟩ := hother
    obtain ⟨hmem, hkey⟩ := findMemobj_mem hfind
    have hmap : pm.type = .physToVirt ∧ pm.unalignedAddr ≠ pm.virtAddr := by
      rcases htype with htype | htype
      · exact absurd ⟨pm, hfind, .inl htype⟩ hnot
      · exact ⟨htype, fun heq => hnot ⟨pm, hfind, .inr ⟨htype, heq⟩⟩⟩
    obtain ⟨-, hrel⟩ := h _ (congrArg some (lxFree_owned hfind htype))
    obtain ⟨b, hb, d, hd, hkind, hvirt, hdkind, -, hiff⟩ := hrel ptr rfl
    have hperm := hs.perm_cons hfind
    rw [MemObj.owned, hmap.1] at hperm
    have hm : ⟨pm.virtAddr, pm.size, pm.virtAddr, pm.size, .mapping⟩ ∈ s.heap :=
      hperm.mem_iff.2 List.mem_cons_self
    have hdesc : pm.descriptor ∈ s.heap :=
      hperm.mem_iff.2 (List.mem_cons_of_mem _ List.mem_cons_self)
    -- it stays allocated, though it is the only block at the pointer
    obtain rfl := hs.heap.eq_of_virt hb hm (hvirt.trans hkey.symm)
    have hne : pm.virtAddr ≠ pm.addr := fun heq => by
      have := hs.heap.eq_of_base hm hdesc heq
      cases congrArg VmBlock.kind this
    have hstays : ⟨pm.virtAddr, pm.size, pm.virtAddr, pm.size, .mapping⟩ ∈
        Arena.release VmBlock.base pm.addr
          (Arena.release VmBlock.base pm.unalignedAddr s.heap) :=
      Arena.mem_release.2 ⟨Arena.mem_release.2 ⟨hm, hmap.2.symm⟩, hne⟩
    exact ((hiff _).1 hstays).2.1 rfl

/-! ### Runs -/

theorem released_iff (hs : s.Owned) (a : MemAct) : s.Released a ↔ s.Releasable a := by
  by_cases ha : ∃ ptr, a = .free ptr
  · obtain ⟨ptr, rfl⟩ := ha
    refine ⟨releasable_of_released hs, ?_⟩
    rintro ⟨pm, hfind, h⟩
    exact (free_releasable hs hfind h).1
  · have ha' : ∀ ptr, a ≠ .free ptr := fun ptr heq => ha ⟨ptr, heq⟩
    refine iff_of_true ?_ ?_
    · intro r hr
      exact ⟨(acquires_result hr ha').freesAllocated, fun ptr hptr => absurd hptr (ha' ptr)⟩
    · cases a with
      | free ptr => exact absurd rfl (ha' ptr)
      | malloc | pa | va | remap => trivial

theorem owned_step (hs : s.Owned) (hsys : s.SystemOk a) (ha : s.Releasable a)
    (h : step s a = some s') : s'.Owned := by
  refine ⟨heapOk_step hs.heap hsys h, ?_⟩
  obtain ⟨-, r, hr, rfl⟩ := step_eq_some h
  by_cases hfree : ∃ ptr, a = .free ptr
  · obtain ⟨ptr, rfl⟩ := hfree
    obtain ⟨pm, hfind, htype⟩ := ha
    exact (free_releasable hs hfind htype).2 r hr
  · obtain ⟨hwf, hfresh⟩ := hsys r hr
    exact (acquires_result hr fun ptr heq => hfree ⟨ptr, heq⟩).perm hs.perm hs.heap hwf hfresh

/-- **The exact condition.**  Along a run every block is released once, with its descriptor, if and
only if each pointer that is freed is one of a block, or of a mapping at its physical address. -/
theorem along_released_iff {phys : ULONG → ULONG} {as : List MemAct}
    (h : (machine phys).exec (initial phys) as = some s)
    (hsys : (machine phys).Along SystemOk (initial phys) as) :
    (machine phys).Along Released (initial phys) as ↔
      (machine phys).Along Releasable (initial phys) as :=
  Machine.along_iff_along_of (fun _ _ _ hs hsys ha => owned_step hs hsys ha)
    (fun _ a _ hs _ _ => released_iff hs a) ⟨⟨nofun, .nil⟩, .nil⟩ h hsys

/-- A block is allocated, its address is looked up, and it is freed. -/
theorem along_released_malloc :
    let raw : MemObj := ⟨0x10000, 0, 0, 0, 0, 0, 0, .unknown, ⟨0, 0⟩⟩
    (machine id).Along Released (initial id)
      [.malloc ⟨7, 1⟩ 100 0 (some raw) ⟨0x20000, 100, 0x20000⟩, .pa ⟨7, 1⟩ 0x20000 none true,
        .free 0x20000] :=
  (along_released_iff (s := ⟨[], [], [], id⟩) rfl
    (Machine.along_of_check (g := fun s a => decide (s.SystemOk a)) (by simp) (by decide))).2
    (Machine.along_of_check (g := fun s a => decide (s.Releasable a)) (by simp) (by decide))

/-- A page is mapped and freed again: `DevVMFree` gets its physical address. -/
theorem not_along_released_va :
    let raw : MemObj := ⟨0x10000, 0, 0, 0, 0, 0, 0, .unknown, ⟨0, 0⟩⟩
    let as : List MemAct := [.va ⟨7, 1⟩ 0xA0000 (some raw) 0x30000, .free 0x30000]
    (∃ s, (machine id).exec (initial id) as = some s) ∧
      (machine id).Along SystemOk (initial id) as ∧
      ¬ (machine id).Along Released (initial id) as := by
  refine ⟨⟨_, rfl⟩, Machine.along_of_check (g := fun s a => decide (s.SystemOk a)) (by simp)
    (by decide), ?_⟩
  intro h
  exact absurd ((h.2 _ rfl).1 _ rfl).1 (by decide)

end Registry

end LxApi32
