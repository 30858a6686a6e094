import LxApi32.Lib.Align
import LxApi32.Memory.MemObjs

/-!
# Aligned memory from the kernel

`DevHlp_VMAlloc` returns whole pages.  `_LXA_VMAllocAligned` needs an address that is a multiple of
two pages: as long as it gets one that is not, it gives the block back and puts a page in its place,
so that the next block begins elsewhere.  These pages stand on the stack, and how many they are is
taken from a counter.  If no attempt succeeds, a block with a page more is taken, and the address is
rounded up in it.

The size of that block wraps around for sizes within the last page of 4 GB.

* `vmAllocAligned_correct_iff` : for a size of a page or more, whatever `DevHlp_VMAlloc` does, the
  memory is aligned and within the one block that stays allocated, or nothing is; unless the size
  with a page more is not a size.
-/

namespace LxApi32

/-- A block that `DevHlp_VMAlloc` has returned. -/
structure AllocBlock where
  /-- The linear address. -/
  addr : ULONG
  /-- The size. -/
  size : ULONG
  deriving DecidableEq, Repr

namespace AllocBlock

/-- It begins with a page, not at 0, and is in the address space. -/
structure Valid (b : AllocBlock) : Prop where
  ne_zero : b.addr ≠ 0
  aligned : b.addr.toNat % 4096 = 0
  le : b.addr.toNat + b.size.toNat ≤ 2 ^ 32

/-- The blocks have no byte in common, and do not begin with the same page. -/
def Disj (b c : AllocBlock) : Prop :=
  b.addr ≠ c.addr ∧
    (b.addr.toNat + b.size.toNat ≤ c.addr.toNat ∨ c.addr.toNat + c.size.toNat ≤ b.addr.toNat)

end AllocBlock

/-- `DevHlp_VMAlloc`: what the `n`-th call returns for its flags and its size when some blocks are
allocated; `none` is the carry flag. -/
structure VMAlloc where
  /-- The address. -/
  answer : (n : ℕ) → (flags size : ULONG) → List AllocBlock → Option ULONG
  /-- A new block is a block of pages. -/
  valid : ∀ {n flags size heap a}, answer n flags size heap = some a → AllocBlock.Valid ⟨a, size⟩
  /-- It has nothing in common with those that there are. -/
  disj : ∀ {n flags size heap a}, answer n flags size heap = some a →
    ∀ b ∈ heap, AllocBlock.Disj ⟨a, size⟩ b

/-- The state of the allocator. -/
structure VMState where
  /-- The calls of `DevHlp_VMAlloc`. -/
  calls : ℕ
  /-- The blocks that are allocated. -/
  heap : List AllocBlock
  deriving DecidableEq, Repr

/-- `VMDHA_USEHIGHMEM`, and `VMFLAGSFIRST` -/
def vmdhaUsehighmem : ULONG := 0x800

/-- `VMDHA_16M` -/
def vmdha16m : ULONG := 1

/-- `ALLOC_ALIGNED_ALIGN-1` -/
def alignOffset : ULONG := 8191

namespace VMState

/-- A call of `DevHlp_VMAlloc`. -/
def alloc (vm : VMAlloc) (flags size : ULONG) (s : VMState) : Option ULONG × VMState :=
  match vm.answer s.calls flags size s.heap with
  | some a => (some a, ⟨s.calls + 1, ⟨a, size⟩ :: s.heap⟩)
  | none => (none, ⟨s.calls + 1, s.heap⟩)

/-- `LXA_VMFreeNoStackThunk`, which is for the address of a block. -/
def free (a : ULONG) (s : VMState) : Option VMState :=
  if ∃ b ∈ s.heap, b.addr = a then some ⟨s.calls, Arena.release AllocBlock.addr a s.heap⟩ else none

end VMState

/-- `_lx_default_malloc_flags` and `_lx_max_alloc_aligned_retry` -/
structure VMConfig where
  /-- `_lx_default_malloc_flags` -/
  defaultMallocFlags : ULONG
  /-- `_lx_max_alloc_aligned_retry` -/
  maxAllocAlignedRetry : ULONG
  /-- There is an attempt. -/
  retry_ne_zero : maxAllocAlignedRetry ≠ 0
  deriving DecidableEq, Repr

/-- `LXA_VMAllocHelper`: high memory first, if that is wanted. -/
def vmAllocHelper (cfg : VMConfig) (vm : VMAlloc) (size flags : ULONG) (s : VMState) :
    Option ULONG × VMState :=
  if cfg.defaultMallocFlags &&& vmdhaUsehighmem ≠ 0 ∧ flags &&& vmdha16m = 0 then
    match s.alloc vm (flags ||| vmdhaUsehighmem) size with
    | (some a, s) => (some a, s)
    | (none, s) => s.alloc vm flags size
  else s.alloc vm flags size

/-- The registers and the stack behind the loop of `LXA_VMAllocAlignedNoStackThunk`. -/
structure AlignedTry where
  /-- `eax` -/
  eax : ULONG
  /-- `esi` -/
  esi : ℕ
  /-- The pages on the stack, the last one first. -/
  pages : List ULONG
  /-- The state of the allocator. -/
  state : VMState

/-- The loop of `LXA_VMAllocAlignedNoStackThunk` for the attempts that `esi` counts down.  It is
entered with an `esi` that is not 0; when it has come to 0, `eax` is set to 0. -/
def tryLoop (cfg : VMConfig) (vm : VMAlloc) (size flags : ULONG) :
    ℕ → List ULONG → VMState → Option AlignedTry
  | 0, pages, s => some ⟨0, 0, pages, s⟩
  | esi + 1, pages, s =>
    match vmAllocHelper cfg vm size flags s with
    | (none, s) => some ⟨0, esi + 1, pages, s⟩
    | (some eax, s) =>
      if eax = eax &&& ~~~alignOffset then some ⟨eax, esi + 1, pages, s⟩
      else (s.free eax).bind fun s =>
        match vmAllocHelper cfg vm 4096 flags s with
        | (none, s) => some ⟨0, esi + 1, pages, s⟩
        | (some page, s) => tryLoop cfg vm size flags esi (page :: pages) s

/-- The second loop: it frees as many pages as the counter is away from its first value.  What it
takes from the stack, and what it leaves there, has to be right. -/
def freePages : ℕ → List ULONG → VMState → Option VMState
  | 0, [], s => some s
  | n + 1, page :: pages, s => (s.free page).bind (freePages n pages)
  | _, _, _ => none

/-- `LXA_VMAllocAlignedNoStackThunk`: `eax`, `ecx` and the state. -/
def vmAllocAlignedNoStackThunk (cfg : VMConfig) (vm : VMAlloc) (size flags : ULONG) (s : VMState) :
    Option (ULONG × ULONG × VMState) :=
  if size < 4096 then
    let (eax, s) := vmAllocHelper cfg vm size flags s
    some (eax.getD 0, size, s)
  else
    (tryLoop cfg vm size flags cfg.maxAllocAlignedRetry.toNat [] s).bind fun t =>
      (freePages (cfg.maxAllocAlignedRetry.toNat - t.esi) t.pages t.state).map fun s =>
        if t.eax = 0 then
          let (eax, s) := vmAllocHelper cfg vm (size + 4096) flags s
          (eax.getD 0, size + 4096, s)
        else (t.eax, size, s)

/-- `LXA_AlignMemory` -/
def lxaAlignMemory (eax : ULONG) : ULONG :=
  if eax = eax &&& ~~~alignOffset then eax else (eax + alignOffset) &&& ~~~alignOffset

/-- `_LXA_VMAllocAligned`: its outputs, which are not written when it returns 0, and the state. -/
def vmAllocAligned (cfg : VMConfig) (vm : VMAlloc) (flags size : ULONG) (s : VMState) :
    Option (Option AlignedMem × VMState) :=
  (vmAllocAlignedNoStackThunk cfg vm size flags s).map fun (eax, ecx, s) =>
    if eax = 0 then (none, s)
    else (some ⟨eax, ecx, if ecx < 4096 then eax else lxaAlignMemory eax⟩, s)

/-- The call ends with all memory freed, or with aligned memory inside the one block that stays. -/
def AlignedCorrect (size : ULONG) (heap : List AllocBlock) :
    Option (Option AlignedMem × VMState) → Prop
  | none => False
  | some (none, s) => s.heap.Perm heap
  | some (some m, s) => s.heap.Perm (⟨m.base, m.realsize⟩ :: heap) ∧ m.virt ≠ 0 ∧
      m.virt.toNat % 8192 = 0 ∧ VmBlock.Wf ⟨m.base, m.realsize, m.virt, size, .block⟩

/-! ### The heap -/

/-- A page that is put in the place of a block. -/
def AllocBlock.page (addr : ULONG) : AllocBlock := ⟨addr, 4096⟩

/-- Beside the blocks that there were, these are allocated. -/
structure VMState.Holds (heap bs : List AllocBlock) (s : VMState) : Prop where
  perm : s.heap.Perm (bs ++ heap)
  nodup : (s.heap.map AllocBlock.addr).Nodup

/-- If the call has succeeded, there is one block more. -/
def Allocates (heap bs : List AllocBlock) (size : ULONG) : Option ULONG × VMState → Prop
  | (some a, s) => s.Holds heap (⟨a, size⟩ :: bs) ∧ AllocBlock.Valid ⟨a, size⟩
  | (none, s) => s.Holds heap bs

section Heap

variable {heap bs bs' : List AllocBlock} {b : AllocBlock} {s : VMState}

theorem VMState.Holds.of_perm (hs : s.Holds heap bs) (h : bs.Perm bs') : s.Holds heap bs' :=
  ⟨hs.perm.trans (h.append_right heap), hs.nodup⟩

theorem alloc_holds (vm : VMAlloc) (flags size : ULONG) (hs : s.Holds heap bs) :
    Allocates heap bs size (s.alloc vm flags size) := by
  unfold VMState.alloc
  cases ha : vm.answer s.calls flags size s.heap with
  | none => exact ⟨hs.perm, hs.nodup⟩
  | some a =>
    refine ⟨⟨hs.perm.cons _, List.nodup_cons.2 ⟨fun hmem => ?_, hs.nodup⟩⟩, vm.valid ha⟩
    obtain ⟨b, hb, heq⟩ := List.mem_map.1 hmem
    exact (vm.disj ha b hb).1 heq.symm

theorem vmAllocHelper_holds (cfg : VMConfig) (vm : VMAlloc) (size flags : ULONG)
    (hs : s.Holds heap bs) : Allocates heap bs size (vmAllocHelper cfg vm size flags s) := by
  unfold vmAllocHelper
  split_ifs
  · have hfirst := alloc_holds vm (flags ||| vmdhaUsehighmem) size hs
    generalize s.alloc vm (flags ||| vmdhaUsehighmem) size = r at hfirst ⊢
    obtain ⟨_ | a, s'⟩ := r
    · exact alloc_holds vm flags size hfirst
    · exact hfirst
  · exact alloc_holds vm flags size hs

theorem free_holds (hs : s.Holds heap (b :: bs)) :
    ∃ s', s.free b.addr = some s' ∧ s'.Holds heap bs := by
  have hmem : ∃ c ∈ s.heap, c.addr = b.addr :=
    ⟨b, hs.perm.mem_iff.2 List.mem_cons_self, rfl⟩
  refine ⟨_, if_pos hmem, Arena.release_perm_of_perm_cons hs.perm hs.nodup, ?_⟩
  exact hs.nodup.sublist (List.filter_sublist.map _)

end Heap

/-! ### The two loops -/

theorem alignOffset_eq : alignOffset = lowMask 32 13 := by decide

theorem toNat_and_not_alignOffset (x : ULONG) :
    (x &&& ~~~alignOffset).toNat = x.toNat / 8192 * 8192 := by
  rw [alignOffset_eq]
  exact toNat_and_not_lowMask x (by decide)

theorem eq_and_not_alignOffset (x : ULONG) : x = x &&& ~~~alignOffset ↔ x.toNat % 8192 = 0 := by
  rw [← BitVec.toNat_inj, toNat_and_not_alignOffset]
  omega

section Loops

variable {heap bs : List AllocBlock} {s : VMState} {pages : List ULONG}

/-- What the first loop leaves: the pages on the stack are as many as `esi` is away from its first
value, and no block beside them is allocated but the one that it has found. -/
theorem tryLoop_holds (cfg : VMConfig) (vm : VMAlloc) (size flags : ULONG) (n : ℕ)
    (hs : s.Holds heap (pages.map .page)) :
    ∃ t, tryLoop cfg vm size flags n pages s = some t ∧
      t.esi + t.pages.length = n + pages.length ∧
      (t.eax = 0 ∧ t.state.Holds heap (t.pages.map .page) ∨
        t.eax.toNat % 8192 = 0 ∧ AllocBlock.Valid ⟨t.eax, size⟩ ∧
          t.state.Holds heap (⟨t.eax, size⟩ :: t.pages.map .page)) := by
  induction n generalizing pages s with
  | zero => exact ⟨_, rfl, rfl, .inl ⟨rfl, hs⟩⟩
  | succ esi ih =>
    have hblock := vmAllocHelper_holds cfg vm size flags hs
    rw [tryLoop]
    generalize vmAllocHelper cfg vm size flags s = r at hblock ⊢
    obtain ⟨_ | eax, s₁⟩ := r
    · exact ⟨_, rfl, rfl, .inl ⟨rfl, hblock⟩⟩
    · dsimp only
      split_ifs with heax
      · exact ⟨_, rfl, rfl, .inr ⟨(eq_and_not_alignOffset eax).1 heax, hblock.2, hblock.1⟩⟩
      · obtain ⟨s₂, hfree, hs₂⟩ := free_holds hblock.1
        have hpage := vmAllocHelper_holds cfg vm 4096 flags hs₂
        dsimp only at hfree
        rw [hfree, Option.bind_some]
        generalize vmAllocHelper cfg vm 4096 flags s₂ = r at hpage ⊢
        obtain ⟨_ | page, s₃⟩ := r
        · exact ⟨_, rfl, rfl, .inl ⟨rfl, hpage⟩⟩
        · obtain ⟨t, ht, hlen, hres⟩ := @ih s₃ (page :: pages) hpage.1
          exact ⟨t, ht, by rw [hlen, List.length_cons]; omega, hres⟩

/-- The second loop frees the pages. -/
theorem freePages_holds (hs : s.Holds heap (pages.map .page ++ bs)) :
    ∃ s', freePages pages.length pages s = some s' ∧ s'.Holds heap bs := by
  induction pages generalizing s with
  | nil => exact ⟨s, rfl, hs⟩
  | cons page pages ih =>
    obtain ⟨s₁, hfree, hs₁⟩ := free_holds (b := AllocBlock.page page) hs
    obtain ⟨s₂, hrest, hs₂⟩ := ih hs₁
    refine ⟨s₂, ?_, hs₂⟩
    rw [List.length_cons, freePages]
    exact (congrArg (Option.bind · _) hfree).trans hrest

end Loops

/-! ### The call -/

section Call

variable {cfg : VMConfig} {vm : VMAlloc} {flags size eax ecx : ULONG} {heap : List AllocBlock}
  {s : VMState}

/-- A page or more is not less than a page. -/
theorem not_lt_page (h : 4096 ≤ size.toNat) : ¬ size < 4096 := fun hlt =>
  absurd (BitVec.lt_def.1 hlt) (Nat.not_lt.2 h)

/-- There is a first attempt. -/
theorem VMConfig.exists_retry (cfg : VMConfig) : ∃ k, cfg.maxAllocAlignedRetry.toNat = k + 1 :=
  Nat.exists_eq_succ_of_ne_zero fun h0 => cfg.retry_ne_zero (BitVec.eq_of_toNat_eq h0)

/-- An aligned address is left alone, and any other one is moved by a page. -/
theorem lxaAlignMemory_spec (h : AllocBlock.Valid ⟨eax, ecx⟩)
    (hroom : eax.toNat % 8192 = 0 ∨ 4096 < ecx.toNat) :
    lxaAlignMemory eax ≠ 0 ∧ (lxaAlignMemory eax).toNat % 8192 = 0 ∧
      (lxaAlignMemory eax).toNat = eax.toNat + if eax.toNat % 8192 = 0 then 0 else 4096 := by
  have hpage : eax.toNat % 4096 = 0 := h.aligned
  have hle : eax.toNat + ecx.toNat ≤ 2 ^ 32 := h.le
  unfold lxaAlignMemory
  by_cases h8 : eax.toNat % 8192 = 0
  · rw [if_pos ((eq_and_not_alignOffset eax).2 h8), if_pos h8]
    exact ⟨h.ne_zero, h8, rfl⟩
  · rw [if_neg (mt (eq_and_not_alignOffset eax).1 h8), if_neg h8]
    have hadd : (eax + alignOffset).toNat = eax.toNat + 8191 := by
      rw [BitVec.toNat_add]
      exact Nat.mod_eq_of_lt (show eax.toNat + 8191 < 2 ^ 32 by omega)
    have hval : ((eax + alignOffset) &&& ~~~alignOffset).toNat = eax.toNat + 4096 := by
      rw [toNat_and_not_alignOffset, hadd]
      omega
    refine ⟨fun h0 => ?_, by omega, hval⟩
    rw [h0] at hval
    exact absurd hval (Nat.ne_of_lt (Nat.succ_pos _))

/-- A block that is left alone, with room for the alignment. -/
theorem alignedCorrect_of_holds (h : AllocBlock.Valid ⟨eax, ecx⟩) (hs : s.Holds heap [⟨eax, ecx⟩])
    (hecx : 4096 ≤ ecx.toNat)
    (hroom : size.toNat + (if eax.toNat % 8192 = 0 then 0 else 4096) ≤ ecx.toNat)
    (hpos : 0 < size.toNat) :
    AlignedCorrect size heap (some (if eax = 0 then (none, s)
      else (some ⟨eax, ecx, if ecx < 4096 then eax else lxaAlignMemory eax⟩, s))) := by
  have hge := not_lt_page hecx
  obtain ⟨hne, hmod, hval⟩ := lxaAlignMemory_spec h (by split_ifs at hroom <;> omega)
  rw [if_neg h.ne_zero, if_neg hge]
  refine ⟨hs.perm, hne, hmod, ?_⟩
  unfold VmBlock.Wf
  dsimp only
  split_ifs at hroom hval <;> omega

/-- An address that is 0 if the call has failed. -/
theorem Allocates.getD {bs : List AllocBlock} {r : Option ULONG × VMState}
    (h : Allocates heap bs size r) :
    r.1.getD 0 = 0 ∧ r.2.Holds heap bs ∨
      AllocBlock.Valid ⟨r.1.getD 0, size⟩ ∧ r.2.Holds heap (⟨r.1.getD 0, size⟩ :: bs) := by
  obtain ⟨_ | a, s⟩ := r
  · exact .inl ⟨rfl, h⟩
  · exact .inr ⟨h.2, h.1⟩

/-- The call ends with nothing more allocated, or with a block: of the size for less than a page,
aligned after an attempt that has succeeded, or with a page more. -/
theorem noStackThunk_holds (cfg : VMConfig) (vm : VMAlloc) (size flags : ULONG)
    (hs : s.Holds heap []) :
    ∃ eax ecx s', vmAllocAlignedNoStackThunk cfg vm size flags s = some (eax, ecx, s') ∧
      (eax = 0 ∧ s'.Holds heap [] ∨
        AllocBlock.Valid ⟨eax, ecx⟩ ∧ s'.Holds heap [⟨eax, ecx⟩] ∧
          if size < 4096 then ecx = size
          else eax.toNat % 8192 = 0 ∧ ecx = size ∨ ecx = size + 4096) := by
  unfold vmAllocAlignedNoStackThunk
  by_cases hlt : size < 4096
  · rw [if_pos hlt]
    refine ⟨_, _, _, rfl, ?_⟩
    rcases (vmAllocHelper_holds cfg vm size flags hs).getD with hnone | ⟨hvalid, hblock⟩
    · exact .inl hnone
    · exact .inr ⟨hvalid, hblock, by rw [if_pos hlt]⟩
  obtain ⟨t, ht, hlen, hres⟩ : ∃ t, tryLoop cfg vm size flags _ [] s = some t ∧ _ :=
    tryLoop_holds cfg vm size flags cfg.maxAllocAlignedRetry.toNat hs
  have hcount : cfg.maxAllocAlignedRetry.toNat - t.esi = t.pages.length := by
    rw [List.length_nil] at hlen
    omega
  rw [if_neg hlt, ht, Option.bind_some, hcount]
  rcases hres with ⟨h0, hs₁⟩ | ⟨h8, hvalid, hs₁⟩
  · -- no attempt has succeeded
    have hpages : t.state.Holds heap (t.pages.map .page ++ []) := by rwa [List.append_nil]
    obtain ⟨s₂, hfree, hs₂⟩ := freePages_holds hpages
    rw [hfree, Option.map_some, if_pos h0]
    refine ⟨_, _, _, rfl, ?_⟩
    rcases (vmAllocHelper_holds cfg vm (size + 4096) flags hs₂).getD with hnone | ⟨hvalid, hblock⟩
    · exact .inl hnone
    · refine .inr ⟨hvalid, hblock, ?_⟩
      rw [if_neg hlt]
      exact .inr rfl
  · obtain ⟨s₂, hfree, hs₂⟩ :=
      freePages_holds (hs₁.of_perm (List.perm_append_singleton _ _).symm)
    rw [hfree, Option.map_some, if_neg hvalid.ne_zero]
    refine ⟨_, _, _, rfl, .inr ⟨hvalid, hs₂, ?_⟩⟩
    rw [if_neg hlt]
    exact .inl ⟨h8, rfl⟩

/-- The call is right when the size with a page more is a size. -/
theorem vmAllocAligned_correct (hsize : 4096 ≤ size.toNat) (hfit : size.toNat + 4096 < 2 ^ 32)
    (calls : ℕ) (hheap : (heap.map AllocBlock.addr).Nodup) :
    AlignedCorrect size heap (vmAllocAligned cfg vm flags size ⟨calls, heap⟩) := by
  have hge := not_lt_page hsize
  have hadd : (size + 4096).toNat = size.toNat + 4096 := by
    rw [BitVec.toNat_add]
    exact Nat.mod_eq_of_lt hfit
  have hinit : VMState.Holds heap [] ⟨calls, heap⟩ := ⟨.refl _, hheap⟩
  obtain ⟨eax, ecx, s, hcall, hres⟩ := noStackThunk_holds cfg vm size flags hinit
  rw [vmAllocAligned, hcall, Option.map_some]
  dsimp only
  rcases hres with ⟨h0, hs⟩ | ⟨hvalid, hs, hblock⟩
  · rw [if_pos h0]
    exact hs.perm
  rw [if_neg hge] at hblock
  rcases hblock with ⟨h8, rfl⟩ | rfl
  · exact alignedCorrect_of_holds hvalid hs hsize (by rw [if_pos h8]; omega) (by omega)
  · exact alignedCorrect_of_holds hvalid hs (by omega) (by split_ifs <;> omega) (by omega)

/-- An allocator that has memory for a wrapped size only, at `0x10000`. -/
def lateAlloc (size : ULONG) : VMAlloc where
  answer _ _ sz heap := if sz = size + 4096 ∧ sz < 4096 ∧ heap = [] then some 0x10000 else none
  valid {n flags sz heap a} h := by
    split_ifs at h with hsz
    cases h
    have hlt := BitVec.lt_def.1 hsz.2.1
    refine ⟨show (0x10000 : ULONG) ≠ 0 by decide,
      show (0x10000 : ULONG).toNat % 4096 = 0 by decide, ?_⟩
    show 0x10000 + sz.toNat ≤ 2 ^ 32
    have : (4096 : ULONG).toNat = 4096 := rfl
    omega
  disj {n flags sz heap a} h b hb := by
    split_ifs at h with hsz
    rw [hsz.2.2] at hb
    cases hb

theorem lateAlloc_answer (size : ULONG) (n : ℕ) (flags sz : ULONG) :
    (lateAlloc size).answer n flags sz [] =
      if sz = size + 4096 ∧ sz < 4096 then some 0x10000 else none := by
  simp only [lateAlloc, and_true]

theorem vmAllocHelper_none (h : ∀ n flags, vm.answer n flags size s.heap = none) :
    vmAllocHelper cfg vm size flags s =
      (none, ⟨if cfg.defaultMallocFlags &&& vmdhaUsehighmem ≠ 0 ∧ flags &&& vmdha16m = 0 then
        s.calls + 2 else s.calls + 1, s.heap⟩) := by
  unfold vmAllocHelper
  split_ifs <;> simp [VMState.alloc, h]

theorem vmAllocHelper_some (h : ∀ n flags, vm.answer n flags size s.heap = some eax) :
    vmAllocHelper cfg vm size flags s = (some eax, ⟨s.calls + 1, ⟨eax, size⟩ :: s.heap⟩) := by
  unfold vmAllocHelper
  split_ifs <;> simp [VMState.alloc, h]

/-- For a size within the last page of 4 GB that allocator is asked for the wrapped size. -/
theorem vmAllocAligned_lateAlloc (cfg : VMConfig) (flags size : ULONG) (hsize : 4096 ≤ size.toNat)
    (hwrap : ¬ size.toNat + 4096 < 2 ^ 32) :
    (size + 4096).toNat = size.toNat + 4096 - 2 ^ 32 ∧
      ∃ s, vmAllocAligned cfg (lateAlloc size) flags size ⟨0, []⟩ =
        some (some ⟨0x10000, size + 4096, 0x10000⟩, s) := by
  have hge := not_lt_page hsize
  have hadd : (size + 4096).toNat = size.toNat + 4096 - 2 ^ 32 := by
    have := size.isLt
    rw [BitVec.toNat_add]
    show (size.toNat + 4096) % 2 ^ 32 = _
    omega
  have hlt : size + 4096 < 4096 := by
    have := size.isLt
    rw [BitVec.lt_def, hadd]
    show _ < 4096
    omega
  obtain ⟨k, hk⟩ := cfg.exists_retry
  -- the first attempt fails, and the wrapped size succeeds
  have hfirst : ∀ n flags, (lateAlloc size).answer n flags size [] = none := by
    intro n flags
    rw [lateAlloc_answer, if_neg fun h => hge h.2]
  have hlast : ∀ n flags, (lateAlloc size).answer n flags (size + 4096) [] = some 0x10000 := by
    intro n flags
    rw [lateAlloc_answer, if_pos ⟨rfl, hlt⟩]
  refine ⟨hadd, ?_⟩
  rw [vmAllocAligned, vmAllocAlignedNoStackThunk, if_neg hge, hk, tryLoop,
    vmAllocHelper_none (s := ⟨0, []⟩) hfirst]
  simp only [Option.bind_some, Nat.sub_self, freePages, Option.map_some, if_true,
    vmAllocHelper_some (s := ⟨_, []⟩) hlast, Option.getD_some, if_pos hlt]
  rw [if_neg (by decide)]
  exact ⟨_, rfl⟩

/-- A size within the last page of 4 GB ends with a block that is too small. -/
theorem vmAllocAligned_late (cfg : VMConfig) (flags size : ULONG) (hsize : 4096 ≤ size.toNat)
    (hwrap : ¬ size.toNat + 4096 < 2 ^ 32) :
    ¬ AlignedCorrect size [] (vmAllocAligned cfg (lateAlloc size) flags size ⟨0, []⟩) := by
  obtain ⟨hadd, s, hcall⟩ := vmAllocAligned_lateAlloc cfg flags size hsize hwrap
  have hlt := size.isLt
  rw [hcall]
  rintro ⟨-, -, -, -, -, hle⟩
  dsimp only at hle
  omega

/-- **Aligned memory** is right, whatever `DevHlp_VMAlloc` does, exactly for the sizes that have a
size with a page more. -/
theorem vmAllocAligned_correct_iff (cfg : VMConfig) (flags size : ULONG)
    (hsize : 4096 ≤ size.toNat) :
    (∀ (vm : VMAlloc) (calls : ℕ) (heap : List AllocBlock), heap.Pairwise AllocBlock.Disj →
      AlignedCorrect size heap (vmAllocAligned cfg vm flags size ⟨calls, heap⟩)) ↔
    size.toNat + 4096 < 2 ^ 32 := by
  constructor
  · intro h
    by_contra hwrap
    exact vmAllocAligned_late cfg flags size hsize hwrap (h _ 0 [] .nil)
  · intro hfit vm calls heap hheap
    refine vmAllocAligned_correct hsize hfit calls (List.pairwise_map.2 ?_)
    exact hheap.imp fun hdisj => hdisj.1

/-- The configuration at the start: high memory and fixed memory, and 500 attempts. -/
def defaultConfig : VMConfig := ⟨0x802, 500, by decide⟩

/-- `vmAllocAligned_correct_iff` for a stack. -/
theorem vmAllocAligned_correct_stack :
    (∀ (vm : VMAlloc) (calls : ℕ) (heap : List AllocBlock), heap.Pairwise AllocBlock.Disj →
      AlignedCorrect 8192 heap (vmAllocAligned defaultConfig vm 2 8192 ⟨calls, heap⟩)) ↔
    (8192 : ULONG).toNat + 4096 < 2 ^ 32 :=
  vmAllocAligned_correct_iff defaultConfig 2 8192 (by decide)

/-- The last page of 4 GB is asked for. -/
theorem vmAllocAligned_lastPage :
    ¬ ∀ (size : ULONG) (vm : VMAlloc), 4096 ≤ size.toNat →
      AlignedCorrect size [] (vmAllocAligned defaultConfig vm 2 size ⟨0, []⟩) := fun h =>
  vmAllocAligned_late defaultConfig 2 0xfffff000 (by decide) (by decide)
    (h 0xfffff000 _ (by decide))

end Call

end LxApi32
