import LxApi32.Memory.Segments

/-!
# The memory of a segment

`LX_alloc_segment` takes up to three blocks: the structure, if the caller has none, the memory of
the segment, if the caller has none, and the array of selectors.  All its exits for errors end in
`kfree(segment)`, which frees the structure, the caller's as well, and nothing else;
`LX_free_segment` frees the structure and the memory of the segment, the caller's as well, but
not the array.

* `lxAllocSegment_allOrNothing_iff` : a call leaves nothing behind and takes nothing from the
  caller, either at once or after `LX_free_segment`, exactly if the caller has given no structure,
  and the call ends before it has more than the structure, or before it has more than the structure
  and the caller's memory.

What `LX__pa` keeps in the registry of memory objects is not counted: it belongs to that.
-/

namespace LxApi32

/-- The blocks of memory there are, by address. -/
abbrev SegHeap := List ULONG

/-- The same blocks are allocated and the same selectors are used. -/
def SameHeld (heap heap' : SegHeap) (g g' : Gdt) : Prop :=
  (∀ a, a ∈ heap' ↔ a ∈ heap) ∧ g'.used = g.used

/-- A call has returned, and nothing is left of it: if it has returned a segment, after
`LX_free_segment` of that. -/
def AllOrNothing (t : GdtTable) (table : ℕ → Bool) (heap : SegHeap) (g : Gdt)
    (r : SegmentResult) : Prop :=
  match r.ret with
  | some segment => ∃ g' ops, lxFreeSegment t table segment r.gdt = some (g', ops) ∧
      SameHeld heap (Arena.run id heap (r.ops ++ ops)) g g'
  | none => SameHeld heap (Arena.run id heap r.ops) g r.gdt

/-- The call ends before it has anything that it does not give back. -/
def EndsEarly (ans : SegmentAns) (size virtAddr segptr : ULONG) : Prop :=
  segptr = 0 ∧ (ans.segment = 0 ∨ size = 0 ∨ virtAddr = 0 ∧ ans.virt = 0 ∨
    virtAddr ≠ 0 ∧ (ans.pa virtAddr = 0 ∨ ans.sels = 0))

/-- The caller's structure and memory are allocated, and what is handed out is new. -/
structure SegmentMemoryOk (t : GdtTable) (ans : SegmentAns) (type size virtAddr segptr : ULONG)
    (heap : SegHeap) (g : Gdt) : Prop where
  /-- The structure. -/
  segptr_mem : segptr ≠ 0 → segptr ∈ heap
  /-- The memory. -/
  virtAddr_mem : virtAddr ≠ 0 → virtAddr ∈ heap
  /-- What is handed out. -/
  fresh : ∀ r, lxAllocSegment t ans type size virtAddr segptr g = some r →
    Arena.Fresh id (· ≠ ·) heap r.ops

section

variable {t : GdtTable} {table : ℕ → Bool} {ans : SegmentAns}
  {type size virtAddr segptr a b : ULONG} {heap heap' : SegHeap} {g g' : Gdt} {r : SegmentResult}

theorem mem_run_allocOps :
    a ∈ Arena.run id heap (allocOps b) ↔ b ≠ 0 ∧ a = b ∨ a ∈ heap := by
  unfold allocOps
  split_ifs with hb
  · simp [Arena.run, hb]
  · exact List.mem_cons.trans (or_congr_left (and_iff_right hb).symm)

/-- The structure is allocated. -/
theorem segmentAddr_mem (h : segptr ≠ 0 → segptr ∈ heap) (haddr : segmentAddr ans segptr ≠ 0) :
    segmentAddr ans segptr ∈ Arena.run id heap (structOps ans segptr) := by
  unfold segmentAddr structOps at *
  split_ifs at haddr ⊢ with hseg
  · exact mem_run_allocOps.2 (.inl ⟨haddr, rfl⟩)
  · exact h hseg

/-- The memory is allocated. -/
theorem segmentVirtual_mem (h : virtAddr ≠ 0 → virtAddr ∈ heap)
    (hvirt : segmentVirtual ans virtAddr ≠ 0) :
    segmentVirtual ans virtAddr ∈ Arena.run id heap (virtualOps ans virtAddr) := by
  unfold segmentVirtual virtualOps at *
  split_ifs at hvirt ⊢ with hv
  · exact mem_run_allocOps.2 (.inl ⟨hvirt, rfl⟩)
  · exact h hv

theorem mem_run_structOps (h : a ∈ heap) : a ∈ Arena.run id heap (structOps ans segptr) := by
  unfold structOps
  split_ifs
  · exact mem_run_allocOps.2 (.inr h)
  · exact h

theorem mem_run_virtualOps (h : a ∈ heap) : a ∈ Arena.run id heap (virtualOps ans virtAddr) := by
  unfold virtualOps
  split_ifs
  · exact mem_run_allocOps.2 (.inr h)
  · exact h

/-- The last operation of `LX_free_segment`. -/
theorem lxFreeSegment_ops {segment : Segment} {ops : List SegOp}
    (h : lxFreeSegment t table segment g = some (g', ops)) :
    ops = (if segment.pVirtual = 0 then [] else [.free segment.pVirtual]) ++
      [.free segment.addr] := by
  obtain ⟨_, -, heq⟩ := Option.map_eq_some_iff.1 h
  exact (Prod.mk.inj heq).2.symm

/-- The caller's structure is freed. -/
theorem segptr_eq_zero (hok : SegmentMemoryOk t ans type size virtAddr segptr heap g)
    (hr : lxAllocSegment t ans type size virtAddr segptr g = some r)
    (hall : AllOrNothing t table heap g r) : segptr = 0 := by
  by_contra hseg
  have hmem := hok.segptr_mem hseg
  have haddr : segmentAddr ans segptr = segptr := if_neg hseg
  obtain ⟨h₁, -⟩ | ⟨-, -, rfl⟩ | ⟨-, -, -, rfl⟩ | ⟨-, -, -, -, -, g₁, segment, b, hloop, hret⟩ :=
    lxAllocSegment_cases hr
  · exact hseg (haddr ▸ h₁)
  · obtain ⟨g', ops, hf, hsame, -⟩ := hall
    rw [lxFreeSegment_ops hf, ← List.append_assoc] at hsame
    exact Arena.not_mem_run_free haddr.symm ((hsame _).2 hmem)
  · exact Arena.not_mem_run_free haddr.symm ((hall.1 _).2 hmem)
  obtain ⟨-, rfl⟩ | ⟨-, g₂, -, rfl⟩ := hret
  · obtain ⟨g', ops, hf, hsame, -⟩ := hall
    rw [lxFreeSegment_ops hf, ← List.append_assoc, (selLoop_segment hloop).1] at hsame
    exact Arena.not_mem_run_free haddr.symm ((hsame _).2 hmem)
  · have hsame := hall.1
    rw [List.append_cons] at hsame
    exact Arena.not_mem_run_free haddr.symm ((hsame _).2 hmem)

/-- The array is not freed. -/
theorem not_allOrNothing_of_sels (hok : SegmentMemoryOk t ans type size virtAddr segptr heap g)
    (hr : lxAllocSegment t ans type size virtAddr segptr g = some r)
    (haddr : segmentAddr ans segptr ≠ 0) (hsize : size ≠ 0)
    (hvirt : segmentVirtual ans virtAddr ≠ 0) (hpa : ans.pa (segmentVirtual ans virtAddr) ≠ 0)
    (hsels : ans.sels ≠ 0) : ¬ AllOrNothing t table heap g r := by
  intro hall
  obtain ⟨h₁, -⟩ | ⟨-, h₁, -⟩ | ⟨-, -, h₁, -⟩ | ⟨-, -, -, -, -, g₁, segment, b, hloop, hret⟩ :=
    lxAllocSegment_cases hr
  · exact haddr h₁
  · exact hsize h₁
  · exact h₁.elim hvirt fun h => h.elim hpa hsels
  have hfresh := hok.fresh r hr
  have hsaddr : segment.addr = segmentAddr ans segptr := (selLoop_segment hloop).1
  have hsvirt : segment.pVirtual = segmentVirtual ans virtAddr := (selLoop_segment hloop).2
  -- the array is neither one of the caller's blocks nor one of the others
  have hold : ∀ c ∈ Arena.run id heap (structOps ans segptr ++ virtualOps ans virtAddr),
      ans.sels ≠ c := by
    obtain ⟨-, rfl⟩ | ⟨-, g₂, -, rfl⟩ := hret
    · exact (Arena.fresh_append.1 hfresh).2.1
    · exact (Arena.fresh_append.1 hfresh).2.1
  rw [Arena.run_append] at hold
  have hnew : ans.sels ∉ heap := fun h => hold _ (mem_run_virtualOps (mem_run_structOps h)) rfl
  have hne_addr : ans.sels ≠ segmentAddr ans segptr :=
    hold _ (mem_run_virtualOps (segmentAddr_mem hok.segptr_mem haddr))
  have hne_virt : ans.sels ≠ segmentVirtual ans virtAddr :=
    hold _ (segmentVirtual_mem (fun h => mem_run_structOps (hok.virtAddr_mem h)) hvirt)
  obtain ⟨-, rfl⟩ | ⟨-, g₂, -, rfl⟩ := hret
  · obtain ⟨g', ops, hf, hsame, -⟩ := hall
    rw [lxFreeSegment_ops hf, hsaddr, hsvirt, if_neg hvirt] at hsame
    refine hnew ((hsame _).1 ?_)
    simp only [Arena.run_append, Arena.run, Arena.mem_release]
    exact ⟨⟨List.mem_cons_self, hne_virt⟩, hne_addr⟩
  · refine hnew ((hall.1 _).1 ?_)
    simp only [Arena.run_append, Arena.run, Arena.mem_release]
    exact ⟨List.mem_cons_self, hne_addr⟩

/-- The memory of the segment is not freed. -/
theorem not_allOrNothing_of_virt (hok : SegmentMemoryOk t ans type size 0 segptr heap g)
    (hr : lxAllocSegment t ans type size 0 segptr g = some r)
    (haddr : segmentAddr ans segptr ≠ 0) (hsize : size ≠ 0) (hvirt : ans.virt ≠ 0)
    (hend : ans.pa ans.virt = 0 ∨ ans.sels = 0) : ¬ AllOrNothing t table heap g r := by
  intro hall
  obtain ⟨h₁, -⟩ | ⟨-, h₁, -⟩ | ⟨-, -, -, rfl⟩ | ⟨-, -, -, h₁, h₂, -⟩ := lxAllocSegment_cases hr
  · exact haddr h₁
  · exact hsize h₁
  · have hops : virtualOps ans 0 = [.alloc ans.virt] := by
      rw [virtualOps, if_pos rfl, allocOps, if_neg hvirt]
    have hfresh := hok.fresh _ hr
    rw [hops, List.append_assoc, Arena.fresh_append] at hfresh
    have hold : ∀ c ∈ Arena.run id heap (structOps ans segptr), ans.virt ≠ c := hfresh.2.1
    have hne : ans.virt ≠ segmentAddr ans segptr := hold _ (segmentAddr_mem hok.segptr_mem haddr)
    refine hold _ (mem_run_structOps ((hall.1 ans.virt).1 ?_)) rfl
    simp only [hops, Arena.run_append, Arena.run, Arena.mem_release]
    exact ⟨List.mem_cons_self, hne⟩
  · exact hend.elim h₁ h₂

/-- A call that ends early leaves nothing behind. -/
theorem allOrNothing_of_endsEarly (hok : SegmentMemoryOk t ans type size virtAddr segptr heap g)
    (h : EndsEarly ans size virtAddr segptr) :
    ∃ r, lxAllocSegment t ans type size virtAddr segptr g = some r ∧
      AllOrNothing t table heap g r := by
  obtain ⟨rfl, h⟩ := h
  have haddr : segmentAddr ans 0 = ans.segment := rfl
  by_cases hseg : ans.segment = 0
  · refine ⟨⟨g, [], none⟩, ?_, fun _ => Iff.rfl, rfl⟩
    simp only [lxAllocSegment, haddr, structOps, allocOps, hseg, ↓reduceIte]
  have hops : structOps ans 0 = [.alloc ans.segment] := by
    rw [structOps, if_pos rfl, allocOps, if_neg hseg]
  have hsame : ∀ r ops, lxAllocSegment t ans type size virtAddr 0 g = some r →
      r.ops = .alloc ans.segment :: ops →
      SameHeld heap (Arena.run id heap [.alloc ans.segment, .free ans.segment]) g g := by
    intro r ops hr hrops
    have hfresh := hok.fresh r hr
    rw [hrops] at hfresh
    have hnew : ∀ c ∈ heap, id c ≠ id ans.segment := fun c hc => (hfresh.1 c hc).symm
    have hrun : Arena.run id heap [.alloc ans.segment, .free ans.segment] = heap :=
      Arena.run_alloc_free hnew
    rw [hrun]
    exact ⟨fun _ => Iff.rfl, rfl⟩
  by_cases hsize : size = 0
  · have hr : lxAllocSegment t ans type size virtAddr 0 g =
        some ⟨g, [.alloc ans.segment], some ⟨ans.segment, type, 0, 0, 0, 0, 0, 0, []⟩⟩ := by
      simp only [lxAllocSegment, haddr, hseg, hops, hsize, ↓reduceIte]
    exact ⟨_, hr, g, _, rfl, hsame _ _ hr rfl⟩
  -- neither the memory nor the array is handed out
  have hr : lxAllocSegment t ans type size virtAddr 0 g =
      some ⟨g, [.alloc ans.segment, .free ans.segment], none⟩ := by
    obtain ⟨rfl, hvirt⟩ | ⟨hvirt, hpa | hsels⟩ := (h.resolve_left hseg).resolve_left hsize
    · simp only [lxAllocSegment, haddr, hseg, hops, hsize, segmentVirtual, virtualOps, allocOps,
        hvirt, ↓reduceIte]
      rfl
    · simp only [lxAllocSegment, haddr, hseg, hops, hsize, segmentVirtual, virtualOps, hvirt, hpa,
        ↓reduceIte]
      rfl
    · simp only [lxAllocSegment, haddr, hseg, hops, hsize, segmentVirtual, virtualOps, allocOps,
        hvirt, hsels, ↓reduceIte]
      split_ifs <;> rfl
  exact ⟨_, hr, hsame _ _ hr rfl⟩

end

/-- **The exact condition.**  A call is all or nothing if and only if it ends early. -/
theorem lxAllocSegment_allOrNothing_iff (t : GdtTable) (table : ℕ → Bool) (ans : SegmentAns)
    (type size virtAddr segptr : ULONG) (heap : SegHeap) (g : Gdt)
    (hok : SegmentMemoryOk t ans type size virtAddr segptr heap g) :
    (∃ r, lxAllocSegment t ans type size virtAddr segptr g = some r ∧
      AllOrNothing t table heap g r) ↔ EndsEarly ans size virtAddr segptr := by
  refine ⟨?_, allOrNothing_of_endsEarly hok⟩
  rintro ⟨r, hr, hall⟩
  obtain rfl := segptr_eq_zero hok hr hall
  refine ⟨rfl, ?_⟩
  by_contra hlate
  push Not at hlate
  obtain ⟨hseg, hsize, hmine, hcallers⟩ := hlate
  by_cases hvirt : virtAddr = 0
  · subst hvirt
    have hv := hmine rfl
    by_cases hend : ans.pa ans.virt = 0 ∨ ans.sels = 0
    · exact not_allOrNothing_of_virt hok hr hseg hsize hv hend hall
    · push Not at hend
      exact not_allOrNothing_of_sels hok hr hseg hsize hv hend.1 hend.2 hall
  · obtain ⟨hpa, hsels⟩ := hcallers hvirt
    have heq : segmentVirtual ans virtAddr = virtAddr := if_neg hvirt
    exact not_allOrNothing_of_sels hok hr hseg hsize (by rwa [heq]) (by rwa [heq]) hsels hall

/-- The answers if everything succeeds, with a structure at `0x1000`, its memory at `0x2000` and its
array at `0x3000`. -/
def SegmentAns.good : SegmentAns where
  segment := 0x1000
  virt := 0x2000
  pa := id
  sels := 0x3000
  table _ := (true, true)
  map _ _ _ _ _ := true
  lin _ _ := some 0x4000

/-- Without a physical address for the caller's memory a call ends early. -/
theorem lxAllocSegment_allOrNothing_pa :
    let ans : SegmentAns := { SegmentAns.good with pa := fun _ => 0 }
    ∃ r, lxAllocSegment .numbered ans 0 100 0x5000 0 ⟨fun _ => false, false⟩ = some r ∧
      AllOrNothing .numbered (fun _ => true) [0x5000] ⟨fun _ => false, false⟩ r := by
  refine (lxAllocSegment_allOrNothing_iff _ _ _ _ _ _ _ _ _ ⟨fun h => absurd rfl h,
    fun _ => List.mem_singleton_self _, ?_⟩).2 ⟨rfl, .inr (.inr (.inr ⟨by decide, .inl rfl⟩))⟩
  intro r hr
  cases hr
  decide

/-- 100 bytes are allocated and freed: the array of the selectors is left. -/
theorem not_lxAllocSegment_allOrNothing_good :
    ¬ ∃ r, lxAllocSegment .numbered .good 0 100 0 0 ⟨fun _ => false, false⟩ = some r ∧
      AllOrNothing .numbered (fun _ => true) [] ⟨fun _ => false, false⟩ r := by
  rintro ⟨r, hr, hall⟩
  cases hr
  obtain ⟨g', ops, hf, hsame, -⟩ := hall
  cases hf
  exact absurd ((hsame 0x3000).1 (by decide)) (by decide)

end LxApi32
