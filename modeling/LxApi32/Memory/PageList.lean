import LxApi32.Memory.AllocAligned
import Mathlib.Data.List.SplitBy

/-!
# Page lists

`LX__pa` has room for five elements of a page list, and asks `DevLinToPageList` for those of a whole
block.  There is an element for each piece of the block that is contiguous in physical memory.

* `pageListFits_iff` : there are not more than five for any block of a size exactly if the block has
  five pages, or is contiguous, or is so large that its end is not an address.

Physical memory is given by the frame of each page.  `DevVMAlloc` returns contiguous frames when it
is asked to, and any frames otherwise.
-/

namespace LxApi32

/-- `VMDHA_CONTIG` -/
def vmdhaContig : ULONG := 0x0008

/-- The pages of a range; none if its end is not an address, when there is no page list. -/
def rangePages (virt size : ULONG) : List ℕ :=
  if size = 0 ∨ 2 ^ 32 ≤ virt.toNat + size.toNat then []
  else List.range' (virt.toNat / 4096) ((virt.toNat % 4096 + size.toNat + 4095) / 4096)

/-- `DevLinToPageList`: the frames of each element of the page list of a range. -/
structure LinToPageList where
  /-- The elements. -/
  pieces : (frame : ℕ → ℕ) → (virt size : ULONG) → List (List ℕ)
  /-- They have the frames of the range, in order. -/
  flatten : ∀ {frame virt size}, (pieces frame virt size).flatten = (rangePages virt size).map frame
  /-- None is empty. -/
  nil_notMem : ∀ {frame virt size}, [] ∉ pieces frame virt size
  /-- The frames of an element are contiguous. -/
  contiguous : ∀ {frame virt size}, ∀ p ∈ pieces frame virt size, p.IsChain fun a b => b = a + 1
  /-- Those of two elements are not. -/
  maximal : ∀ {frame virt size}, (pieces frame virt size).IsChain fun p q =>
    ∃ hp hq, q.head hq ≠ p.getLast hp + 1

/-- The pages of a block have contiguous frames. -/
def ContiguousFrames (frame : ℕ → ℕ) (base realsize : ULONG) : Prop :=
  ∀ k, base.toNat / 4096 ≤ k → (k + 1) * 4096 < base.toNat + realsize.toNat →
    frame (k + 1) = frame k + 1

/-- The flags as `__LX_malloc` passes them on. -/
def passedFlags (flags : ULONG) : ULONG := (flags.setWidth 16).setWidth 32

/-- For every block of `__LX_malloc`, the page list that `LX__pa` asks for has five elements at
most. -/
def PageListFits (dev : LinToPageList) (size flags : ULONG) : Prop :=
  ∀ (cfg : VMConfig) (vm : VMAlloc) (s s' : VMState) (mem : AlignedMem),
    s.heap.Pairwise AllocBlock.Disj →
    vmAllocAligned cfg vm (passedFlags flags) size s = some (some mem, s') →
    ∀ frame, (flags &&& vmdhaContig ≠ 0 → ContiguousFrames frame mem.base mem.realsize) →
    ∀ thread raw memobjs,
      ∀ pm ∈ findMemobj mem.virt false (lxMalloc thread size flags (some raw) mem memobjs).memobjs,
        (dev.pieces frame pm.virtAddr pm.size).length ≤ 5

/-- Five pages, or contiguous ones, or a block that no address is behind. -/
def PageListFitsWhen (size flags : ULONG) : Prop :=
  size.toNat ≤ 5 * 4096 ∨ flags &&& vmdhaContig ≠ 0 ∨ 2 ^ 32 ≤ size.toNat + 8192

instance (size flags : ULONG) : Decidable (PageListFitsWhen size flags) :=
  inferInstanceAs (Decidable (_ ∨ _ ∨ _))

/-! ### Pieces -/

section Pieces

variable {l : List ℕ} {L : List (List ℕ)}

/-- Not more pieces than elements. -/
theorem length_le_of_flatten (hnil : [] ∉ L) : L.length ≤ L.flatten.length := by
  induction L with
  | nil => exact Nat.le_refl _
  | cons p L ih =>
    rw [List.mem_cons, not_or] at hnil
    have hpos := List.length_pos_iff.2 (Ne.symm hnil.1)
    have hle := ih hnil.2
    rw [List.flatten_cons, List.length_cons, List.length_append]
    omega

/-- A list in which no element is the next number after the one before. -/
theorem splitBy_scattered (h : l.IsChain fun a b => b ≠ a + 1) :
    l.splitBy (fun a b => b = a + 1) = l.map fun a => [a] := by
  rw [List.splitBy_eq_iff]
  refine ⟨?_, ?_, ?_, ?_⟩
  · rw [← List.flatMap_def]
    exact (List.flatMap_singleton' l).symm
  · simp
  · intro m hm
    obtain ⟨a, -, rfl⟩ := List.mem_map.1 hm
    exact List.isChain_singleton a
  · rw [List.isChain_map]
    exact h.imp fun a b hab => ⟨List.cons_ne_nil _ _, List.cons_ne_nil _ _, decide_eq_false hab⟩

end Pieces

variable {dev : LinToPageList} {frame : ℕ → ℕ} {virt size flags : ULONG}

/-- The elements are the longest pieces of contiguous frames. -/
theorem pieces_eq (dev : LinToPageList) (frame : ℕ → ℕ) (virt size : ULONG) :
    dev.pieces frame virt size =
      ((rangePages virt size).map frame).splitBy fun a b => b = a + 1 := by
  refine (List.splitBy_eq_iff.2 ⟨dev.flatten.symm, dev.nil_notMem, fun p hp => ?_, ?_⟩).symm
  · exact (dev.contiguous p hp).imp fun a b hab => by simpa using hab
  · exact dev.maximal.imp fun p q ⟨hp, hq, hne⟩ => ⟨hp, hq, by simpa using hne⟩

/-- Not more elements than pages. -/
theorem length_pieces_le (dev : LinToPageList) (frame : ℕ → ℕ) (virt size : ULONG) :
    (dev.pieces frame virt size).length ≤ (rangePages virt size).length := by
  have hle := length_le_of_flatten (@LinToPageList.nil_notMem dev frame virt size)
  rwa [dev.flatten, List.length_map] at hle

theorem length_rangePages_le (halign : virt.toNat % 4096 = 0) :
    (rangePages virt size).length ≤ (size.toNat + 4095) / 4096 := by
  unfold rangePages
  split_ifs
  · exact Nat.zero_le _
  · rw [List.length_range', halign, Nat.zero_add]

/-- Contiguous frames make one element. -/
theorem length_pieces_contiguous
    (h : (rangePages virt size).IsChain fun a b => frame b = frame a + 1) :
    (dev.pieces frame virt size).length ≤ 1 := by
  rw [pieces_eq]
  by_cases hnil : rangePages virt size = []
  · rw [hnil]
    exact Nat.zero_le _
  · rw [List.splitBy_of_isChain (by simpa using hnil)]
    · exact Nat.le_refl _
    · rw [List.isChain_map]
      exact h.imp fun a b hab => by simpa using hab

/-- Frames of which none follows another make an element for each page. -/
theorem length_pieces_scattered (virt size : ULONG) :
    (dev.pieces (fun k => 2 * k) virt size).length = (rangePages virt size).length := by
  have hchain : ((rangePages virt size).map fun k => 2 * k).IsChain fun a b => b ≠ a + 1 := by
    rw [List.isChain_map, List.isChain_iff_getElem]
    intro i _
    omega
  rw [pieces_eq, splitBy_scattered hchain, List.length_map, List.length_map]

/-! ### Blocks -/

section Blocks

variable {cfg : VMConfig} {vm : VMAlloc} {s s' : VMState} {a : ULONG} {mem : AlignedMem}

/-- **A block of `__LX_malloc`** begins with a page, and not at 0.  For less than a page it is
returned as it is. -/
theorem virt_of_vmAllocAligned (hs : s.heap.Pairwise AllocBlock.Disj)
    (h : vmAllocAligned cfg vm flags size s = some (some mem, s')) :
    mem.virt ≠ 0 ∧ mem.virt.toNat % 4096 = 0 ∧
      (size < 4096 → mem.realsize = size ∧ mem.virt = mem.base) := by
  have hnodup : (s.heap.map AllocBlock.addr).Nodup :=
    List.pairwise_map.2 (hs.imp fun hdisj => hdisj.1)
  have hinit : s.Holds s.heap [] := ⟨.refl _, hnodup⟩
  obtain ⟨eax, ecx, s₁, hcall, hres⟩ := noStackThunk_holds cfg vm size flags hinit
  rw [vmAllocAligned, hcall, Option.map_some, Option.some.injEq] at h
  dsimp only at h
  rcases hres with ⟨h0, -⟩ | ⟨hvalid, -, hblock⟩
  · rw [if_pos h0] at h
    cases h
  rw [if_neg hvalid.ne_zero] at h
  cases h
  dsimp only
  by_cases hecx : ecx < 4096
  · rw [if_pos hecx]
    refine ⟨hvalid.ne_zero, hvalid.aligned, fun hlt => ?_⟩
    rw [if_pos hlt] at hblock
    exact ⟨hblock, rfl⟩
  · -- the size with a page more has not wrapped around
    have hge : ¬ size < 4096 := by
      intro hlt
      rw [if_pos hlt] at hblock
      exact hecx (hblock ▸ hlt)
    rw [if_neg hge] at hblock
    rw [BitVec.lt_def, Nat.not_lt] at hge hecx
    have hroom : eax.toNat % 8192 = 0 ∨ 4096 < ecx.toNat := by
      rcases hblock with ⟨h8, -⟩ | rfl
      · exact .inl h8
      · have hadd := BitVec.toNat_add size 4096
        have hpage : (4096 : ULONG).toNat = 4096 := rfl
        have hlt := size.isLt
        omega
    obtain ⟨hne, h8, -⟩ := lxaAlignMemory_spec hvalid hroom
    rw [if_neg (by rwa [BitVec.lt_def, Nat.not_lt])]
    refine ⟨hne, by omega, fun hlt => ?_⟩
    exact absurd (BitVec.lt_def.1 hlt) (Nat.not_lt.2 hge)

/-- The entry that `LX__pa` finds for a block that has been returned. -/
theorem findMemobj_lxMalloc (thread : ThreadId) (size flags : ULONG) (raw : MemObj)
    (mem : AlignedMem) (memobjs : List MemObj) (hvirt : mem.virt ≠ 0) :
    ∃ pm, findMemobj mem.virt false (lxMalloc thread size flags (some raw) mem memobjs).memobjs =
        some pm ∧
      pm.virtAddr = mem.virt ∧ pm.size = size := by
  unfold lxMalloc allocMemobj
  rw [Option.map_some]
  dsimp only
  rw [if_neg hvirt, findMemobj, List.find?_cons_of_pos (by simp [MemObj.key])]
  exact ⟨_, rfl, rfl, rfl⟩

/-- A block for a page or more is as it should be. -/
theorem alignedCorrect_of_pairwise (hs : s.heap.Pairwise AllocBlock.Disj)
    (hsize : 4096 ≤ size.toNat) (hfit : size.toNat + 4096 < 2 ^ 32)
    (h : vmAllocAligned cfg vm flags size s = some (some mem, s')) :
    mem.virt ≠ 0 ∧ mem.virt.toNat % 8192 = 0 ∧
      VmBlock.Wf ⟨mem.base, mem.realsize, mem.virt, size, .block⟩ := by
  have hnodup : (s.heap.map AllocBlock.addr).Nodup :=
    List.pairwise_map.2 (hs.imp fun hdisj => hdisj.1)
  have hcorrect : AlignedCorrect size s.heap (vmAllocAligned cfg vm flags size s) :=
    vmAllocAligned_correct hsize hfit s.calls hnodup
  rw [h] at hcorrect
  exact hcorrect.2

/-- A block has the size that was asked for, unless that with a page more is not a size. -/
theorem size_le_realsize (hs : s.heap.Pairwise AllocBlock.Disj)
    (hfit : size.toNat + 4096 < 2 ^ 32)
    (h : vmAllocAligned cfg vm flags size s = some (some mem, s')) :
    mem.base.toNat ≤ mem.virt.toNat ∧
      mem.virt.toNat + size.toNat ≤ mem.base.toNat + mem.realsize.toNat := by
  by_cases hlt : size < 4096
  · obtain ⟨hreal, hvirt⟩ := (virt_of_vmAllocAligned hs h).2.2 hlt
    rw [hvirt, hreal]
    exact ⟨Nat.le_refl _, Nat.le_refl _⟩
  · have hge : 4096 ≤ size.toNat := Nat.le_of_not_lt fun hlt' => hlt (BitVec.lt_def.2 hlt')
    obtain ⟨-, -, hle, -, hin⟩ := alignedCorrect_of_pairwise hs hge hfit h
    exact ⟨hle, hin⟩

/-- A block of almost 4 GB has no end that is an address. -/
theorem end_of_large (hs : s.heap.Pairwise AllocBlock.Disj) (hlarge : 2 ^ 32 ≤ size.toNat + 8192)
    (h : vmAllocAligned cfg vm flags size s = some (some mem, s')) :
    2 ^ 32 ≤ mem.virt.toNat + size.toNat := by
  obtain ⟨hne, halign, -⟩ := virt_of_vmAllocAligned hs h
  have hpos : mem.virt.toNat ≠ 0 := fun h0 => hne (BitVec.eq_of_toNat_eq h0)
  by_cases hfit : size.toNat + 4096 < 2 ^ 32
  · obtain ⟨-, h8, -⟩ := alignedCorrect_of_pairwise hs (by omega) hfit h
    omega
  · omega

/-- The pages of a range in a block with contiguous frames. -/
theorem isChain_rangePages (halign : virt.toNat % 4096 = 0) {base realsize : ULONG}
    (hbase : base.toNat ≤ virt.toNat)
    (hin : virt.toNat + size.toNat ≤ base.toNat + realsize.toNat)
    (hcontig : ContiguousFrames frame base realsize) :
    (rangePages virt size).IsChain fun a b => frame b = frame a + 1 := by
  unfold rangePages
  split_ifs
  · exact List.isChain_nil
  rw [List.isChain_iff_getElem]
  intro i hi
  rw [List.length_range'] at hi
  rw [List.getElem_range', List.getElem_range', Nat.one_mul, Nat.one_mul]
  exact hcontig (virt.toNat / 4096 + i) (by omega) (by omega)

/-! ### The page list of a block -/

/-- A block with five pages, or with contiguous frames, or without a page list. -/
theorem pageListFits_of_when (dev : LinToPageList) (h : PageListFitsWhen size flags) :
    PageListFits dev size flags := by
  intro cfg vm s s' mem hs hcall frame hcontig thread raw memobjs pm hpm
  obtain ⟨hne, halign, -⟩ := virt_of_vmAllocAligned hs hcall
  obtain ⟨entry, hfind, hvirt, hsize⟩ := findMemobj_lxMalloc thread size flags raw mem memobjs hne
  cases hfind.symm.trans hpm
  rw [hvirt, hsize]
  have hpages := length_pieces_le dev frame mem.virt size
  by_cases hlarge : 2 ^ 32 ≤ size.toNat + 8192
  · rw [rangePages, if_pos (.inr (end_of_large hs hlarge hcall))] at hpages
    exact hpages.trans (Nat.zero_le 5)
  rcases h with hfew | hflag | hlarge'
  · calc (dev.pieces frame mem.virt size).length
        ≤ (rangePages mem.virt size).length := hpages
      _ ≤ (size.toNat + 4095) / 4096 := length_rangePages_le halign
      _ ≤ 5 := by omega
  · obtain ⟨hbase, hin⟩ := size_le_realsize hs (by omega) hcall
    have hchain := isChain_rangePages halign hbase hin (hcontig hflag)
    exact (length_pieces_contiguous hchain).trans (by decide)
  · exact absurd hlarge' hlarge

/-- An allocator whose first block is at `0x2000`. -/
def firstAlloc (size : ULONG) : VMAlloc where
  answer _ _ sz heap :=
    if sz = size ∧ size.toNat + 8192 ≤ 2 ^ 32 ∧ heap = [] then some 0x2000 else none
  valid {n flags sz heap a} h := by
    split_ifs at h with hsz
    cases h
    refine ⟨show (0x2000 : ULONG) ≠ 0 by decide,
      show (0x2000 : ULONG).toNat % 4096 = 0 by decide, ?_⟩
    show 0x2000 + sz.toNat ≤ 2 ^ 32
    rw [hsz.1]
    omega
  disj {n flags sz heap a} h b hb := by
    split_ifs at h with hsz
    rw [hsz.2.2] at hb
    cases hb

/-- The first attempt returns an aligned block. -/
theorem vmAllocAligned_firstAlloc (cfg : VMConfig) (flags : ULONG) (hsize : 4096 ≤ size.toNat)
    (hroom : size.toNat + 8192 ≤ 2 ^ 32) :
    ∃ s, vmAllocAligned cfg (firstAlloc size) flags size ⟨0, []⟩ =
      some (some ⟨0x2000, size, 0x2000⟩, s) := by
  have hge := not_lt_page hsize
  have hanswer : ∀ n flags, (firstAlloc size).answer n flags size [] = some 0x2000 :=
    fun n flags => if_pos ⟨rfl, hroom, rfl⟩
  have haligned : (0x2000 : ULONG) = 0x2000 &&& ~~~alignOffset := by decide
  have hne : ¬ (0x2000 : ULONG) = 0 := by decide
  obtain ⟨k, hk⟩ := cfg.exists_retry
  rw [vmAllocAligned, vmAllocAlignedNoStackThunk, if_neg hge, hk, tryLoop,
    vmAllocHelper_some (s := ⟨0, []⟩) hanswer]
  dsimp only
  rw [if_pos haligned, Option.bind_some]
  dsimp only
  rw [Nat.sub_self, freePages, Option.map_some, if_neg hne, Option.map_some]
  dsimp only
  rw [if_neg hne, if_neg hge, lxaAlignMemory, if_pos haligned]
  exact ⟨_, rfl⟩

/-- A block with more pages and scattered frames. -/
theorem not_pageListFits (dev : LinToPageList) (h : ¬ PageListFitsWhen size flags) :
    ¬ PageListFits dev size flags := by
  simp only [PageListFitsWhen, not_or, not_not] at h
  obtain ⟨hmany, hflag, hroom⟩ := h
  obtain ⟨s', hcall⟩ :=
    vmAllocAligned_firstAlloc defaultConfig (passedFlags flags) (by omega : 4096 ≤ size.toNat)
      (by omega)
  have hne : (0x2000 : ULONG) ≠ 0 := by decide
  let raw : MemObj := ⟨0, 0, 0, 0, 0, 0, 0, .unknown, ⟨0, 0⟩⟩
  obtain ⟨pm, hfind, hvirt, hpm⟩ :=
    findMemobj_lxMalloc ⟨0, 0⟩ size flags raw ⟨0x2000, size, 0x2000⟩ [] hne
  intro hfits
  have hle := hfits _ _ _ _ _ .nil hcall (fun k => 2 * k) (absurd hflag ·) ⟨0, 0⟩ raw [] pm hfind
  have hrange : ¬ (size = 0 ∨ 2 ^ 32 ≤ (0x2000 : ULONG).toNat + size.toNat) := by
    rintro (rfl | hend)
    · exact hmany (Nat.zero_le _)
    · have hfirst : (0x2000 : ULONG).toNat = 8192 := rfl
      omega
  rw [hvirt, hpm, length_pieces_scattered, rangePages, if_neg hrange, List.length_range'] at hle
  omega

/-- **The page list of a block** has five elements at most, for every block of a size, exactly if
the size has five pages, or the block is contiguous, or its end is not an address. -/
theorem pageListFits_iff (dev : LinToPageList) (size flags : ULONG) :
    PageListFits dev size flags ↔ PageListFitsWhen size flags :=
  ⟨fun h => of_not_not fun hno => not_pageListFits dev hno h, pageListFits_of_when dev⟩

/-- The longest pieces. -/
def splitPieces : LinToPageList where
  pieces frame virt size := ((rangePages virt size).map frame).splitBy fun a b => b = a + 1
  flatten := List.flatten_splitBy _ _
  nil_notMem := List.nil_notMem_splitBy _ _
  contiguous {frame virt size} p hp :=
    (List.isChain_of_mem_splitBy hp).imp fun a b hab => by simpa using hab
  maximal {frame virt size} :=
    (List.isChain_getLast_head_splitBy _ _).imp fun p q h => by simpa using h

/-- Six pages. -/
theorem not_pageListFits_24576 : ¬ PageListFits splitPieces 24576 2 :=
  not_pageListFits splitPieces (by decide)

end Blocks

end LxApi32
