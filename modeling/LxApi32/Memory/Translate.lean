import LxApi32.Memory.MemObjs

/-!
# Address translation

`LX__pa` keeps the translations that it has looked up in `memobjs`, under their virtual address.
Only a free of that address takes an entry out, and only if it is one of a block or of a mapping.
So the translation of an address inside a block stays in the list when the block is freed, and is
found again when the same addresses are handed out later.  `LX__va` searches the same list by the
physical address, and takes the first entry that has it.

* `translates_iff` : for one address, `LX__pa` and `LX__va` are right exactly if the first entry
  for it has no physical address yet, or the present one, and no entry in front of that has it.
* `Registry.always_neverStale_iff` : along a run they are right for every address in an allocated
  block exactly if no action brings in an entry, or an allocated address, for which that fails.
-/

namespace LxApi32

/-- The first entry for `a` has no physical address or `p`, and no entry in front of it has `p`. -/
def AddrOk (p a : ULONG) : List MemObj → Prop
  | [] => True
  | pm :: rest =>
    if pm.virtAddr = a then pm.physAddr = 0 ∨ pm.physAddr = p
    else (pm.physAddr = p → ∀ q ∈ rest, q.virtAddr ≠ a) ∧ AddrOk p a rest

/-- The first entry for `a`, if there is one, is in front of the one for `address`. -/
def Ahead (a address : ULONG) : List MemObj → Prop
  | [] => True
  | pm :: rest =>
    if pm.virtAddr = address then ∀ q ∈ rest, q.virtAddr ≠ a
    else pm.virtAddr = a ∨ Ahead a address rest

/-- The system answers what `LX__pa` needs: there is a physical address in the first entry, or the
address can be looked up and there is memory for a new entry. -/
def Answers (a : ULONG) (raw : Option MemObj) (pages : Bool) (memobjs : List MemObj) : Prop :=
  match findMemobj a false memobjs with
  | some pm => pm.physAddr = 0 → pages = true
  | none => raw ≠ none ∧ pages = true

/-- `LX__pa` returns the physical address of `a`, and `LX__va` then returns `a`, whatever the system
answers as long as it answers. -/
def Translates (phys : ULONG → ULONG) (memobjs : List MemObj) (a : ULONG) : Prop :=
  ∀ thread raw pages, Answers a raw pages memobjs →
    ∃ r, lxPa thread phys a raw pages memobjs = some r ∧ r.ret = phys a ∧
      ∀ thread' raw' virt, (lxVa thread' (phys a) raw' virt r.memobjs).ret = a

section List

variable {p a address ptr : ULONG} {phys : ULONG → ULONG} {memobjs : List MemObj} {pm : MemObj}

theorem addrOk_of_forall_ne (h : ∀ q ∈ memobjs, q.virtAddr ≠ a) : AddrOk p a memobjs := by
  induction memobjs with
  | nil => trivial
  | cons q rest ih =>
    obtain ⟨hq, hrest⟩ := List.forall_mem_cons.1 h
    rw [AddrOk, if_neg hq]
    exact ⟨fun _ => hrest, ih hrest⟩

/-- The first entry for the address, when the translation is right. -/
theorem AddrOk.found (h : AddrOk p a memobjs) (hfind : findMemobj a false memobjs = some pm) :
    pm.physAddr = 0 ∨ pm.physAddr = p := by
  induction memobjs with
  | nil => cases hfind
  | cons q rest ih =>
    rw [AddrOk] at h
    by_cases hq : q.virtAddr = a
    · obtain rfl : q = pm := by simpa [findMemobj, MemObj.key, hq] using hfind
      rwa [if_pos hq] at h
    · rw [if_neg hq] at h
      exact ih h.2 (by simpa [findMemobj, MemObj.key, hq] using hfind)

/-- With its physical address filled in, the first entry for `a` is the one that `LX__va` finds,
exactly if no entry in front has that address. -/
theorem addrOk_iff_find (hfind : findMemobj a false memobjs = some pm)
    (hpm : pm.physAddr = 0 ∨ pm.physAddr = p) : AddrOk p a memobjs ↔
      ∃ q, findMemobj p true (setPhysAddr a p memobjs) = some q ∧ q.virtAddr = a := by
  induction memobjs with
  | nil => cases hfind
  | cons q rest ih =>
    rw [AddrOk, setPhysAddr]
    by_cases hq : q.virtAddr = a
    · obtain rfl : q = pm := by simpa [findMemobj, MemObj.key, hq] using hfind
      rw [if_pos hq, if_pos hq]
      refine iff_of_true hpm ⟨{ q with physAddr := p }, ?_, hq⟩
      simp [findMemobj, MemObj.key]
    · have hfind' : findMemobj a false rest = some pm := by
        simpa [findMemobj, MemObj.key, hq] using hfind
      rw [if_neg hq, if_neg hq]
      by_cases hp : q.physAddr = p
      · -- an entry in front has the address
        obtain ⟨hmem, hkey⟩ := findMemobj_mem hfind'
        refine iff_of_false (fun h => h.1 hp pm hmem hkey) ?_
        rintro ⟨q', hq', hvirt⟩
        obtain rfl : q = q' := by simpa [findMemobj, MemObj.key, hp] using hq'
        exact hq hvirt
      · rw [ih hfind']
        simp [findMemobj, MemObj.key, hp]

theorem findMemobj_setPhysAddr_self (hfind : findMemobj a false memobjs = some pm) :
    setPhysAddr a pm.physAddr memobjs = memobjs := by
  obtain ⟨-, front, back, rfl, hset, -⟩ := FirstMatch.exists_append hfind
  rw [setPhysAddr_eq]
  exact hset _

theorem mem_setPhysAddr_virt :
    (∀ q ∈ setPhysAddr address p memobjs, q.virtAddr ≠ a) ↔ ∀ q ∈ memobjs, q.virtAddr ≠ a := by
  have hvirt : (setPhysAddr address p memobjs).map MemObj.virtAddr =
      memobjs.map MemObj.virtAddr := by
    rw [setPhysAddr_eq]
    exact FirstMatch.map_modifyFirst fun _ => rfl
  rw [← List.forall_mem_map (P := fun v => v ≠ a), hvirt, List.forall_mem_map]

/-- What a lookup for `address` that fills in `q` means for `a`. -/
theorem addrOk_setPhysAddr {q : ULONG} (hp : p ≠ 0) (ha : a ≠ address)
    (hfind : findMemobj address false memobjs = some pm) (hpm : pm.physAddr = 0) :
    AddrOk p a (setPhysAddr address q memobjs) ↔
      AddrOk p a memobjs ∧ (q = p → Ahead a address memobjs) := by
  induction memobjs with
  | nil => cases hfind
  | cons x rest ih =>
    rw [setPhysAddr]
    by_cases hx : x.virtAddr = address
    · obtain rfl : x = pm := by simpa [findMemobj, MemObj.key, hx] using hfind
      have hxa : x.virtAddr ≠ a := fun heq => ha (heq.symm.trans hx)
      rw [if_pos hx, AddrOk, AddrOk, Ahead, if_neg hxa, if_neg hxa, if_pos hx]
      have h0 : x.physAddr ≠ p := fun heq => hp (heq.symm.trans hpm)
      constructor
      · exact fun h => ⟨⟨fun heq => absurd heq h0, h.2⟩, h.1⟩
      · exact fun h => ⟨h.2, h.1.2⟩
    · have hfind' : findMemobj address false rest = some pm := by
        simpa [findMemobj, MemObj.key, hx] using hfind
      rw [if_neg hx, AddrOk, AddrOk, Ahead, if_neg hx]
      by_cases hxa : x.virtAddr = a
      · rw [if_pos hxa, if_pos hxa]
        exact ⟨fun h => ⟨h, fun _ => .inl hxa⟩, And.left⟩
      · rw [if_neg hxa, if_neg hxa, mem_setPhysAddr_virt, ih hfind', or_iff_right hxa, and_assoc]

/-- The translation of the address itself stays right. -/
theorem addrOk_setPhysAddr_self (h : AddrOk p a memobjs) :
    AddrOk p a (setPhysAddr a p memobjs) := by
  induction memobjs with
  | nil => trivial
  | cons q rest ih =>
    rw [AddrOk] at h
    rw [setPhysAddr]
    by_cases hq : q.virtAddr = a
    · rw [if_pos hq, AddrOk, if_pos hq]
      exact .inr rfl
    · rw [if_neg hq] at h
      rw [if_neg hq, AddrOk, if_neg hq, mem_setPhysAddr_virt]
      exact ⟨h.1, ih h.2⟩

theorem forall_mem_delMemobj (ha : a ≠ ptr) :
    (∀ q ∈ delMemobj ptr memobjs, q.virtAddr ≠ a) ↔ ∀ q ∈ memobjs, q.virtAddr ≠ a := by
  refine ⟨fun h q hq hqa => ?_, fun h q hq => h q (List.mem_of_mem_eraseP hq)⟩
  have hmem : q ∈ delMemobj ptr memobjs :=
    (List.mem_eraseP_of_neg (by simpa [hqa] using ha)).2 hq
  exact h q hmem hqa

/-- Entries of other addresses can be taken out. -/
theorem addrOk_delMemobj (ha : a ≠ ptr) (h : AddrOk p a memobjs) :
    AddrOk p a (delMemobj ptr memobjs) := by
  induction memobjs with
  | nil => trivial
  | cons q rest ih =>
    rw [AddrOk] at h
    by_cases hq : q.virtAddr = ptr
    · have hqa : q.virtAddr ≠ a := fun heq => ha (heq.symm.trans hq)
      rw [if_neg hqa] at h
      have hdel : delMemobj ptr (q :: rest) = rest := List.eraseP_cons_of_pos (by simpa using hq)
      rw [hdel]
      exact h.2
    · have hdel : delMemobj ptr (q :: rest) = q :: delMemobj ptr rest :=
        List.eraseP_cons_of_neg (by simpa using hq)
      rw [hdel, AddrOk]
      split_ifs at h ⊢ with hqa
      · exact h
      · rw [forall_mem_delMemobj ha]
        exact ⟨h.1, ih h.2⟩

/-- A new entry in front. -/
theorem addrOk_cons_of_ne (h : pm.virtAddr ≠ a) : AddrOk p a (pm :: memobjs) ↔
    (pm.physAddr = p → ∀ q ∈ memobjs, q.virtAddr ≠ a) ∧ AddrOk p a memobjs := by
  rw [AddrOk, if_neg h]

/-! ### A call -/

theorem exists_find_setPhysAddr (hfind : findMemobj a false memobjs = some pm) :
    ∃ q, findMemobj p true (setPhysAddr a p memobjs) = some q := by
  obtain ⟨-, front, back, rfl, hset, -⟩ := FirstMatch.exists_append hfind
  have hset' : setPhysAddr a p (front ++ pm :: back) =
      front ++ { pm with physAddr := p } :: back := setPhysAddr_eq.trans (hset _)
  rw [← Option.ne_none_iff_exists', ne_eq, findMemobj_eq_none, hset']
  intro h
  exact h _ (List.mem_append_right _ List.mem_cons_self) rfl

theorem lxVa_ret_of_find {thread : ThreadId} {raw : Option MemObj} {virt : ULONG}
    (hfind : findMemobj p true memobjs = some pm) :
    (lxVa thread p raw virt memobjs).ret = pm.virtAddr := by
  simp only [lxVa, hfind]

/-- What `LX__pa` does with the first entry for the address. -/
theorem lxPa_of_find {thread : ThreadId} {raw : Option MemObj} {pages : Bool}
    (hfind : findMemobj a false memobjs = some pm) :
    lxPa thread phys a raw pages memobjs =
      let q := if pm.physAddr = 0 ∧ pages = true then phys a else pm.physAddr
      some ⟨setPhysAddr a q memobjs, [], q⟩ := by
  have hvirt : pm.virtAddr = a := (findMemobj_mem hfind).2
  simp only [lxPa, hfind, hvirt]

/-- **One address.**  `LX__pa` and `LX__va` are right for it exactly if its first entry is, and is
not hidden from `LX__va`. -/
theorem translates_iff : Translates phys memobjs a ↔ AddrOk (phys a) a memobjs := by
  cases hfind : findMemobj a false memobjs with
  | none =>
    refine iff_of_true ?_ (addrOk_of_forall_ne (findMemobj_eq_none.1 hfind))
    intro thread raw pages hans
    rw [Answers, hfind] at hans
    obtain ⟨hraw, rfl⟩ := hans
    obtain ⟨x, rfl⟩ := Option.ne_none_iff_exists'.1 hraw
    simp only [lxPa, hfind, allocMemobj, Option.map_some, if_true]
    refine ⟨_, rfl, rfl, fun thread' raw' virt => ?_⟩
    -- the new entry is the first one with the physical address
    exact lxVa_ret_of_find (List.find?_cons_of_pos (by simp [MemObj.key]))
  | some pm =>
    constructor
    · intro h
      have hans : Answers a none true memobjs := by rw [Answers, hfind]; exact fun _ => rfl
      obtain ⟨r, hr, hret, hva⟩ := h ⟨0, 0⟩ none true hans
      rw [lxPa_of_find hfind] at hr
      obtain rfl := Option.some.inj hr
      dsimp only at hret hva
      have hpm : pm.physAddr = 0 ∨ pm.physAddr = phys a := by
        by_cases h0 : pm.physAddr = 0
        · exact .inl h0
        · exact .inr (by rwa [if_neg fun h => h0 h.1] at hret)
      rw [hret] at hva
      obtain ⟨q, hq⟩ := exists_find_setPhysAddr (p := phys a) hfind
      exact (addrOk_iff_find hfind hpm).2 ⟨q, hq, (lxVa_ret_of_find hq).symm.trans
        (hva ⟨0, 0⟩ none 0)⟩
    · intro h thread raw pages hans
      rw [Answers, hfind] at hans
      have hret : (if pm.physAddr = 0 ∧ pages = true then phys a else pm.physAddr) = phys a := by
        split_ifs with h0
        · rfl
        · exact (h.found hfind).resolve_left fun heq => h0 ⟨heq, hans heq⟩
      obtain ⟨q, hq, hvirt⟩ := (addrOk_iff_find hfind (h.found hfind)).1 h
      refine ⟨_, lxPa_of_find hfind, hret, fun thread' raw' virt => ?_⟩
      dsimp only
      rw [hret]
      exact (lxVa_ret_of_find hq).trans hvirt

/-- When the system does not answer, `LX__pa` returns no address. -/
theorem lxPa_of_not_answers {thread : ThreadId} {raw : Option MemObj} {pages : Bool}
    (h : ¬ Answers a raw pages memobjs) :
    lxPa thread phys a raw pages memobjs = none ∨
      ∃ r, lxPa thread phys a raw pages memobjs = some r ∧ r.ret = 0 := by
  rw [Answers] at h
  cases hfind : findMemobj a false memobjs with
  | none =>
    simp only [hfind, not_and_or, not_not, Bool.not_eq_true] at h
    cases raw with
    | none =>
      exact .inr ⟨⟨memobjs, [], 0⟩, by simp only [lxPa, hfind, allocMemobj, Option.map_none], rfl⟩
    | some x =>
      obtain rfl : pages = false := h.resolve_left (Option.some_ne_none x)
      exact .inl (by simp [lxPa, hfind, allocMemobj])
  | some pm =>
    simp only [hfind, Classical.not_imp, Bool.not_eq_true] at h
    refine .inr ⟨_, lxPa_of_find hfind, ?_⟩
    simp [h.1, h.2]

end List

namespace Registry

/-- The address is in a block that is allocated. -/
def Allocated (s : Registry) (a : ULONG) : Prop := ∃ b ∈ s.heap, b.kind = .block ∧ b.Inside a

/-- **No translation is stale.** -/
def NeverStale (s : Registry) : Prop := ∀ a, s.Allocated a → Translates s.phys s.memobjs a

/-- The memory of a block has physical addresses. -/
def PhysOk (s : Registry) : MemAct → Prop
  | .malloc _ size _ _ mem =>
    ∀ a, VmBlock.Inside ⟨mem.base, mem.realsize, mem.virt, size, .block⟩ a → s.phys a ≠ 0
  | .remap phys => ∀ a, s.Allocated a → phys a ≠ 0
  | _ => True

/-- What the system does. -/
def SystemMaps (s : Registry) (a : MemAct) : Prop := s.SystemOk a ∧ s.PhysOk a

/-- The condition on an action.
* A block that is handed out has no address with an outdated entry, or one that is hidden.
* A pointer that is freed belongs to no block that stays allocated; else its next entry is right.
* An address that is looked up is no alias of an address of a block with an entry further behind.
* A page that is mapped is not the memory of an address of a block that has an entry.
* No address of a block moves away from its entry, or to where one in front hides it. -/
def Undisturbed (s : Registry) : MemAct → Prop
  | .malloc _ size _ raw mem => raw ≠ none → mem.virt ≠ 0 →
      ∀ a, VmBlock.Inside ⟨mem.base, mem.realsize, mem.virt, size, .block⟩ a → a ≠ mem.virt →
        AddrOk (s.phys a) a s.memobjs
  | .free ptr => ∀ pm, findMemobj ptr false s.memobjs = some pm →
      pm.type = .normalMalloc ∨ pm.type = .physToVirt →
      (∃ b ∈ s.heap, b.kind = .block ∧ b.Inside ptr ∧ b.base ≠ pm.unalignedAddr ∧
        b.base ≠ pm.addr) →
      AddrOk (s.phys ptr) ptr (delMemobj ptr s.memobjs)
  | .pa _ address raw pages => pages = true → ∀ a, s.Allocated a → a ≠ address →
      s.phys address = s.phys a →
      match findMemobj address false s.memobjs with
      | some pm => pm.physAddr = 0 → Ahead a address s.memobjs
      | none => raw ≠ none → ∀ q ∈ s.memobjs, q.virtAddr ≠ a
  | .va _ address raw virt => findMemobj address true s.memobjs = none → raw ≠ none → virt ≠ 0 →
      ∀ a, s.Allocated a → address = s.phys a → ∀ q ∈ s.memobjs, q.virtAddr ≠ a
  | .remap phys => ∀ a, s.Allocated a → AddrOk (phys a) a s.memobjs

/-- All translations of allocated addresses are right. -/
def AllOk (s : Registry) : Prop := ∀ a, s.Allocated a → AddrOk (s.phys a) a s.memobjs

/-- The blocks are apart and have physical addresses. -/
structure Mapped (s : Registry) : Prop where
  /-- They are apart. -/
  heap : HeapOk s.heap
  /-- They have physical addresses. -/
  phys : ∀ a, s.Allocated a → s.phys a ≠ 0

variable {s s' : Registry} {a : MemAct} {x : ULONG}

theorem neverStale_iff : s.NeverStale ↔ s.AllOk :=
  forall₂_congr fun _ _ => translates_iff

/-! ### What is allocated after an action -/

/-- The address is in a block of the heap. -/
def InBlock (heap : List VmBlock) (x : ULONG) : Prop := ∃ b ∈ heap, b.kind = .block ∧ b.Inside x

theorem inBlock_cons {heap : List VmBlock} {b : VmBlock} :
    InBlock (b :: heap) x ↔ b.kind = .block ∧ b.Inside x ∨ InBlock heap x := by
  simp [InBlock]

theorem inBlock_descriptor {heap : List VmBlock} {pm : MemObj} :
    InBlock (pm.descriptor :: heap) x ↔ InBlock heap x := by
  rw [inBlock_cons]
  refine or_iff_right ?_
  rintro ⟨hkind, -⟩
  cases hkind

theorem inBlock_release {heap : List VmBlock} {base : ULONG}
    (h : InBlock (Arena.release VmBlock.base base heap) x) : InBlock heap x := by
  obtain ⟨b, hb, h⟩ := h
  exact ⟨b, (Arena.mem_release.1 hb).1, h⟩

/-- A descriptor that is not kept. -/
theorem inBlock_undone {heap : List VmBlock} {pm : MemObj} {base : ULONG}
    (h : InBlock (Arena.run VmBlock.base heap [.alloc pm.descriptor, .free base]) x) :
    InBlock heap x :=
  inBlock_descriptor.1 (inBlock_release h)

/-- `__LX_malloc` adds an entry and a block, or nothing. -/
theorem lxMalloc_cases (thread : ThreadId) (size flags : ULONG) (raw : Option MemObj)
    (mem : AlignedMem) (memobjs : List MemObj) :
    let r := lxMalloc thread size flags raw mem memobjs
    (raw ≠ none ∧ mem.virt ≠ 0 ∧ ∃ pm : MemObj, pm.virtAddr = mem.virt ∧ pm.physAddr = 0 ∧
      r.memobjs = pm :: memobjs ∧ r.ops = [.alloc pm.descriptor,
        .alloc ⟨mem.base, mem.realsize, mem.virt, size, .block⟩]) ∨
    ((raw ≠ none → mem.virt = 0) ∧ r.memobjs = memobjs ∧
      ∀ heap x, InBlock (Arena.run VmBlock.base heap r.ops) x → InBlock heap x) := by
  cases raw with
  | none => exact .inr ⟨fun h => absurd rfl h, rfl, fun _ _ => id⟩
  | some pm =>
    by_cases hvirt : mem.virt = 0
    · simp only [lxMalloc, allocMemobj, Option.map_some, hvirt, if_true]
      exact .inr ⟨fun _ => trivial, trivial, fun _ _ => inBlock_undone⟩
    · simp only [lxMalloc, allocMemobj, Option.map_some, hvirt, if_false]
      exact .inl ⟨Option.some_ne_none _, hvirt, _, rfl, rfl, rfl, rfl⟩

/-- `LX__va` adds an entry and a mapping, or nothing. -/
theorem lxVa_cases (thread : ThreadId) (address : ULONG) (raw : Option MemObj) (virt : ULONG)
    (memobjs : List MemObj) :
    let r := lxVa thread address raw virt memobjs
    (findMemobj address true memobjs = none ∧ raw ≠ none ∧ virt ≠ 0 ∧
      ∃ pm : MemObj, pm.virtAddr = virt ∧ pm.physAddr = address ∧ r.memobjs = pm :: memobjs ∧
        r.ops = [.alloc pm.descriptor, .alloc ⟨virt, pageSize, virt, pageSize, .mapping⟩]) ∨
    ((findMemobj address true memobjs = none → raw ≠ none → virt = 0) ∧ r.memobjs = memobjs ∧
      ∀ heap x, InBlock (Arena.run VmBlock.base heap r.ops) x → InBlock heap x) := by
  cases hfind : findMemobj address true memobjs with
  | some pm =>
    simp only [lxVa, hfind]
    exact .inr ⟨fun h => (Option.some_ne_none _ h).elim, trivial, fun _ _ => id⟩
  | none =>
    cases raw with
    | none =>
      simp only [lxVa, hfind, allocMemobj, Option.map_none]
      exact .inr ⟨fun _ h => absurd rfl h, trivial, fun _ _ => id⟩
    | some pm =>
      by_cases hvirt : virt = 0
      · simp only [lxVa, hfind, allocMemobj, Option.map_some, hvirt, if_true]
        exact .inr ⟨fun _ _ => trivial, trivial, fun _ _ => inBlock_undone⟩
      · simp only [lxVa, hfind, allocMemobj, Option.map_some, hvirt, if_false]
        exact .inl ⟨trivial, Option.some_ne_none _, hvirt, _, rfl, rfl, rfl, rfl⟩

/-- A block that is added. -/
theorem inBlock_added {heap : List VmBlock} {pm : MemObj} {b : VmBlock} :
    InBlock (Arena.run VmBlock.base heap [.alloc pm.descriptor, .alloc b]) x ↔
      b.kind = .block ∧ b.Inside x ∨ InBlock heap x := by
  show InBlock (b :: pm.descriptor :: heap) x ↔ _
  rw [inBlock_cons, inBlock_descriptor]

/-- The other calls add no block. -/
theorem inBlock_lxFree {heap : List VmBlock} {ptr : ULONG} {memobjs : List MemObj}
    (h : InBlock (Arena.run VmBlock.base heap (lxFree ptr memobjs).ops) x) : InBlock heap x := by
  unfold lxFree at h
  split at h
  · split_ifs at h
    · exact inBlock_release (inBlock_release h)
    · exact inBlock_release h
  · exact inBlock_release h

theorem inBlock_lxPa {heap : List VmBlock} {thread : ThreadId} {phys : ULONG → ULONG}
    {address : ULONG} {raw : Option MemObj} {pages : Bool} {memobjs : List MemObj} {r : MemResult}
    (hr : lxPa thread phys address raw pages memobjs = some r)
    (h : InBlock (Arena.run VmBlock.base heap r.ops) x) : InBlock heap x := by
  unfold lxPa at hr
  split at hr
  · cases hr
    exact h
  · split at hr
    · cases hr
      exact h
    · split_ifs at hr
      cases hr
      exact inBlock_descriptor.1 h

theorem inBlock_lxVa {heap : List VmBlock} {thread : ThreadId} {address : ULONG}
    {raw : Option MemObj} {virt : ULONG} {memobjs : List MemObj}
    (h : InBlock (Arena.run VmBlock.base heap (lxVa thread address raw virt memobjs).ops) x) :
    InBlock heap x := by
  obtain ⟨-, -, -, pm, -, -, -, hops⟩ | ⟨-, -, hblock⟩ :=
    lxVa_cases thread address raw virt memobjs
  · rw [hops] at h
    rcases inBlock_added.1 h with ⟨hkind, -⟩ | h
    · cases hkind
    · exact h
  · exact hblock _ _ h

/-- A new block begins at no address of an old one. -/
theorem not_inside_of_apart {b c : VmBlock} (hb : b.Wf) (hc : c.Wf) (h : b.Apart c) :
    ¬ c.Inside b.virt := by
  simp only [VmBlock.Wf, VmBlock.Apart, VmBlock.Inside] at *
  omega

/-! ### What each call does to the translations -/

theorem allOk_malloc_iff {thread : ThreadId} {size flags : ULONG} {raw : Option MemObj}
    {mem : AlignedMem} (hs : s.Mapped) (hok : s.AllOk)
    (hphys : s.PhysOk (.malloc thread size flags raw mem)) :
    let r := lxMalloc thread size flags raw mem s.memobjs
    (∀ x, InBlock (Arena.run VmBlock.base s.heap r.ops) x → AddrOk (s.phys x) x r.memobjs) ↔
      s.Undisturbed (.malloc thread size flags raw mem) := by
  intro r
  obtain ⟨hraw, hvirt, pm, hpmvirt, hpmphys, hmem, hops⟩ | ⟨hno, hmem, hblock⟩ :=
    lxMalloc_cases thread size flags raw mem s.memobjs
  · -- the new entry has no physical address
    have hcons : ∀ x, s.phys x ≠ 0 → (AddrOk (s.phys x) x (pm :: s.memobjs) ↔
        x = mem.virt ∨ AddrOk (s.phys x) x s.memobjs) := by
      intro x hx
      by_cases heq : pm.virtAddr = x
      · rw [AddrOk, if_pos heq]
        exact iff_of_true (.inl hpmphys) (.inl (heq.symm.trans hpmvirt))
      · rw [addrOk_cons_of_ne heq, hpmphys, or_iff_right (fun h => heq (hpmvirt.trans h.symm))]
        exact and_iff_right fun h => absurd h.symm hx
    show (∀ x, InBlock (Arena.run VmBlock.base s.heap r.ops) x → AddrOk _ x r.memobjs) ↔
      (raw ≠ none → mem.virt ≠ 0 → _)
    rw [hmem, hops, imp_iff_right hraw, imp_iff_right hvirt]
    simp only [inBlock_added]
    constructor
    · intro h x hx hne
      exact ((hcons x (hphys x hx)).1 (h x (.inl ⟨trivial, hx⟩))).resolve_left hne
    · rintro h x (⟨-, hx⟩ | hx)
      · by_cases hne : x = mem.virt
        · exact (hcons x (hphys x hx)).2 (.inl hne)
        · exact (hcons x (hphys x hx)).2 (.inr (h x hx hne))
      · exact (hcons x (hs.phys x hx)).2 (.inr (hok x hx))
  · rw [hmem]
    exact iff_of_true (fun x hx => hok x (hblock _ x hx)) fun hraw hvirt => absurd (hno hraw) hvirt

theorem allOk_va_iff {thread : ThreadId} {address : ULONG} {raw : Option MemObj} {virt : ULONG}
    (hs : s.Mapped) (hok : s.AllOk) (hsys : s.SystemOk (.va thread address raw virt)) :
    let r := lxVa thread address raw virt s.memobjs
    (∀ x, InBlock (Arena.run VmBlock.base s.heap r.ops) x → AddrOk (s.phys x) x r.memobjs) ↔
      s.Undisturbed (.va thread address raw virt) := by
  intro r
  obtain ⟨hwf, hfresh⟩ := hsys r rfl
  obtain ⟨hfind, hraw, hvirt, pm, hpmvirt, hpmphys, hmem, hops⟩ | ⟨hno, hmem, hblock⟩ :=
    lxVa_cases thread address raw virt s.memobjs
  · -- the mapping is at no address of a block
    have hout : ∀ x, InBlock s.heap x → pm.virtAddr ≠ x := by
      rintro x ⟨b, hb, -, hin⟩ rfl
      rw [hops] at hwf hfresh
      have hwfm := hwf ⟨virt, pageSize, virt, pageSize, .mapping⟩
        (List.mem_cons_of_mem _ List.mem_cons_self)
      have hapart := hfresh.2.1 b (List.mem_cons_of_mem _ hb)
      exact not_inside_of_apart hwfm (hs.heap.wf b hb) hapart (hpmvirt ▸ hin)
    show (∀ x, InBlock (Arena.run VmBlock.base s.heap r.ops) x → AddrOk _ x r.memobjs) ↔
      (_ → raw ≠ none → virt ≠ 0 → _)
    rw [hmem, hops, imp_iff_right hfind, imp_iff_right hraw, imp_iff_right hvirt]
    simp only [inBlock_added, reduceCtorEq, false_and, false_or]
    refine forall₂_congr fun x hx => ?_
    rw [addrOk_cons_of_ne (hout x hx), hpmphys]
    exact and_iff_left (hok x hx)
  · rw [hmem]
    exact iff_of_true (fun x hx => hok x (hblock _ x hx))
      fun hfind hraw hvirt => absurd (hno hfind hraw) hvirt

theorem allOk_pa_iff {thread : ThreadId} {address : ULONG} {raw : Option MemObj} {pages : Bool}
    {r : MemResult} (hs : s.Mapped) (hok : s.AllOk)
    (hr : lxPa thread s.phys address raw pages s.memobjs = some r) :
    (∀ x, InBlock (Arena.run VmBlock.base s.heap r.ops) x → AddrOk (s.phys x) x r.memobjs) ↔
      s.Undisturbed (.pa thread address raw pages) := by
  simp only [Undisturbed]
  cases hfind : findMemobj address false s.memobjs with
  | some pm =>
    rw [lxPa_of_find hfind] at hr
    cases hr
    by_cases h0 : pm.physAddr = 0 ∧ pages = true
    · -- the first entry for the address gets it filled in
      rw [if_pos h0]
      simp only [h0.1, h0.2, forall_const, Arena.run]
      refine forall₂_congr fun x hx => ?_
      by_cases hne : x = address
      · subst hne
        exact iff_of_true (addrOk_setPhysAddr_self (hok x hx)) fun h => absurd rfl h
      · rw [addrOk_setPhysAddr (hs.phys x hx) hne hfind h0.1, and_iff_right (hok x hx),
          imp_iff_right hne]
    · simp only [if_neg h0, findMemobj_setPhysAddr_self hfind, Arena.run]
      exact iff_of_true hok fun hpages _ _ _ _ h => absurd ⟨h, hpages⟩ h0
  | none =>
    cases raw with
    | none =>
      simp only [lxPa, hfind, allocMemobj, Option.map_none, Option.some.injEq] at hr
      subst hr
      exact iff_of_true hok fun _ _ _ _ _ h => absurd rfl h
    | some q =>
      cases pages with
      | false => simp [lxPa, hfind, allocMemobj] at hr
      | true =>
        -- a new entry in front
        simp only [lxPa, hfind, allocMemobj, Option.map_some, if_true, Option.some.injEq] at hr
        subst hr
        simp only [ne_eq, reduceCtorEq, not_false_eq_true, forall_const]
        have hnone := findMemobj_eq_none.1 hfind
        refine forall_congr' fun x => ?_
        show (InBlock (MemObj.descriptor _ :: s.heap) x → _) ↔ (InBlock s.heap x → _)
        rw [inBlock_descriptor]
        refine imp_congr_right fun hx => ?_
        by_cases hne : x = address
        · subst hne
          rw [AddrOk, if_pos rfl]
          exact iff_of_true (.inr rfl) fun h => absurd rfl h
        · rw [addrOk_cons_of_ne (Ne.symm hne), and_iff_left (hok x hx), imp_iff_right hne]

theorem allOk_free_iff {ptr : ULONG} (hok : s.AllOk) :
    let r := lxFree ptr s.memobjs
    (∀ x, InBlock (Arena.run VmBlock.base s.heap r.ops) x → AddrOk (s.phys x) x r.memobjs) ↔
      s.Undisturbed (.free ptr) := by
  intro r
  by_cases hown : ∃ pm, findMemobj ptr false s.memobjs = some pm ∧
      (pm.type = .normalMalloc ∨ pm.type = .physToVirt)
  · obtain ⟨pm, hfind, htype⟩ := hown
    have hr : r = ⟨delMemobj ptr s.memobjs, [.free pm.unalignedAddr, .free pm.addr], 0⟩ := by
      simp only [r, lxFree, hfind, if_pos htype]
    -- the blocks that stay
    have hstay : ∀ x, InBlock (Arena.run VmBlock.base s.heap r.ops) x ↔
        ∃ b ∈ s.heap, b.kind = .block ∧ b.Inside x ∧ b.base ≠ pm.unalignedAddr ∧
          b.base ≠ pm.addr := by
      intro x
      simp only [hr, Arena.run, InBlock, Arena.mem_release, and_assoc]
      exact exists_congr fun b => by tauto
    have hold : ∀ x, InBlock (Arena.run VmBlock.base s.heap r.ops) x → InBlock s.heap x := by
      intro x hx
      obtain ⟨b, hb, hkind, hin, -⟩ := (hstay x).1 hx
      exact ⟨b, hb, hkind, hin⟩
    constructor
    · intro h pm' hfind' _ hblock
      obtain rfl : pm = pm' := Option.some.inj (hfind.symm.trans hfind')
      simpa only [hr] using h ptr ((hstay ptr).2 hblock)
    · intro h x hx
      simp only [hr]
      by_cases hne : x = ptr
      · subst hne
        exact h pm hfind htype ((hstay x).1 hx)
      · exact addrOk_delMemobj hne (hok x (hold x hx))
  · have hr : r = ⟨s.memobjs, [.free ptr], 0⟩ := by
      simp only [r, lxFree]
      cases hfind : findMemobj ptr false s.memobjs with
      | none => rfl
      | some pm => exact if_neg fun htype => hown ⟨pm, hfind, htype⟩
    refine iff_of_true ?_ fun pm hfind htype => absurd ⟨pm, hfind, htype⟩ hown
    intro x hx
    rw [hr] at hx ⊢
    exact hok x (inBlock_release hx)

/-! ### Runs -/

theorem allOk_step_iff (hs : s.Mapped) (hok : s.AllOk) (hsys : s.SystemMaps a)
    (h : step s a = some s') : s'.AllOk ↔ s.Undisturbed a := by
  obtain ⟨-, r, hr, rfl⟩ := step_eq_some h
  cases a with
  | malloc => cases hr; exact allOk_malloc_iff hs hok hsys.2
  | free ptr => cases hr; exact allOk_free_iff hok
  | pa => exact allOk_pa_iff hs hok hr
  | va => cases hr; exact allOk_va_iff hs hok hsys.1
  | remap => cases hr; exact Iff.rfl

/-- The memory that is allocated has physical addresses. -/
theorem mapped_step (hs : s.Mapped) (hsys : s.SystemMaps a) (h : step s a = some s') :
    s'.Mapped := by
  refine ⟨heapOk_step hs.heap hsys.1 h, ?_⟩
  obtain ⟨-, r, hr, rfl⟩ := step_eq_some h
  cases a with
  | malloc thread size flags raw mem =>
    cases hr
    intro x hx
    obtain ⟨-, -, pm, -, -, -, hops⟩ | ⟨-, -, hblock⟩ :=
      lxMalloc_cases thread size flags raw mem s.memobjs
    · rw [Allocated, hops] at hx
      rcases inBlock_added.1 hx with ⟨-, hx⟩ | hx
      · exact hsys.2 x hx
      · exact hs.phys x hx
    · exact hs.phys x (hblock _ x hx)
  | free ptr => cases hr; exact fun x hx => hs.phys x (inBlock_lxFree hx)
  | pa => exact fun x hx => hs.phys x (inBlock_lxPa hr hx)
  | va => cases hr; exact fun x hx => hs.phys x (inBlock_lxVa hx)
  | remap phys => cases hr; exact hsys.2

/-- The memory for a descriptor. -/
def rawMemobj (addr : ULONG) : MemObj := ⟨addr, 0, 0, 0, 0, 0, 0, .unknown, ⟨0, 0⟩⟩

theorem id_ne_zero_of_inside {b : VmBlock} (hb : 0 < b.virt.toNat) {x : ULONG} (hx : b.Inside x) :
    id x ≠ 0 := by
  rintro h
  rw [id] at h
  subst h
  exact absurd (hb.trans_le hx.1) (by decide)

end Registry

end LxApi32
