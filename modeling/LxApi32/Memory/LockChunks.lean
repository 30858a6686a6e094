import LxApi32.Lib.Ranges
import LxApi32.Memory.MemLock

/-!
# The pieces of locked memory

`_LX_lock_mem` rounds the range that it is given to pages and locks it in pieces of at most 15
pages, one call of `DevVMLock` each.  The handle of a piece has 12 bytes; the handles stand one
behind the other in a block whose size `LX_lock_mem` has computed from the size of the range before
it was rounded.  If a piece cannot be locked, the pieces before it are unlocked again.

* `lockCalls_locks` : the pieces are those that the list of the locked memory keeps.
* `lockMem_chunks` : the pieces make up the rounded range, the handles stay in their block, and a
  failure leaves nothing locked.
* `outOfMemory_iff` : a call that gets only one of its two blocks fails as it should exactly if the
  first piece cannot be locked anyway.
-/

namespace LxApi32

/-- A call of `DevVMLock`. -/
structure LockCall where
  /-- The address, the size and the flags. -/
  lock : PageLock
  /-- `pLock`, counted from the beginning of `lock`. -/
  pLock : ℕ
  /-- It has returned 0. -/
  ok : Bool
  deriving DecidableEq, Repr

/-- What `_LX_lock_mem` has done. -/
structure LockRun where
  /-- The calls of `DevVMLock`. -/
  calls : List LockCall
  /-- `numLocks` -/
  numLocks : ℕ
  /-- It returns 0. -/
  ok : Bool
  deriving DecidableEq, Repr

/-- The loop of `_LX_lock_mem` with the values that its variables have; `vm` tells which calls of
`DevVMLock` succeed. -/
def lockCalls (flags : ULONG) (vm : ℕ → Bool) (a size : ULONG) (pLock numLocks : ℕ) : LockRun :=
  if h : size = 0 then ⟨[], numLocks, true⟩
  else
    let sz := lockPiece size
    if vm numLocks then
      let rest := lockCalls flags vm (a + sz) (size - sz) (pLock + 12) (numLocks + 1)
      { rest with calls := ⟨⟨a, sz, flags⟩, pLock, true⟩ :: rest.calls }
    else ⟨[⟨⟨a, sz, flags⟩, pLock, false⟩], numLocks, false⟩
termination_by size.toNat
decreasing_by
  have hpos := lockPiece_pos h
  have hle := lockPiece_le size
  rw [toNat_sub_lockPiece]
  omega

/-- `_LX_unlock_mem`: the handles with which it calls `DevVMUnLock`. -/
def unlockCalls (pLock : ℕ) : ℕ → List ℕ
  | 0 => []
  | numLocks + 1 => pLock :: unlockCalls (pLock + 12) numLocks

/-- The bytes that `LX_lock_mem` allocates for the handles. -/
def lockBytes (size : ULONG) : ULONG := (size / maxLockSize + 4) * 12

/-- What `LX_lock_mem` has done after it has allocated its memory. -/
structure LockNewRun where
  /-- The calls of `DevVMLock`. -/
  calls : List LockCall
  /-- The handles of the calls of `DevVMUnLock` behind them. -/
  unlocked : List ℕ
  /-- `lxlock_list` -/
  list : List LockStruct
  /-- What it returns. -/
  ret : ULONG

namespace LockCall

/-- The pieces that are locked after the calls. -/
def locked (calls : List LockCall) : List LockCall := calls.filter (·.ok)

/-- The first byte behind the piece. -/
def stop (c : LockCall) : ℕ := c.lock.addr.toNat + c.lock.size.toNat

end LockCall

/-- The rest of `LX_lock_mem`, when both calls of `kmalloc` have succeeded. -/
def lockNewRun (c : LockRequest) (vm : ℕ → Bool) (list : List LockStruct) : LockNewRun :=
  let run := lockCalls c.flags vm (lockStart c.addr) (lockSize c.addr c.size) 0 0
  if run.ok then
    ⟨run.calls, [], ⟨c, 1, (LockCall.locked run.calls).map (·.lock)⟩ :: list, 0⟩
  else ⟨run.calls, unlockCalls 0 run.numLocks, list, negENOMEM⟩

/-! ### The loop -/

section Loop

variable {flags a size : ULONG} {vm : ℕ → Bool} {pLock numLocks : ℕ}

theorem locked_cons_ok (l : PageLock) (pLock : ℕ) (calls : List LockCall) :
    LockCall.locked (⟨l, pLock, true⟩ :: calls) = ⟨l, pLock, true⟩ :: LockCall.locked calls :=
  List.filter_cons_of_pos rfl

/-- The pieces are those of the list, and the results are the same. -/
theorem lockCalls_locks (flags : ULONG) (vm : ℕ → Bool) (a size : ULONG) (pLock numLocks : ℕ)
    (locks : List PageLock) :
    lockLoop flags vm numLocks a size locks =
      (locks ++ (LockCall.locked (lockCalls flags vm a size pLock numLocks).calls).map (·.lock),
        (lockCalls flags vm a size pLock numLocks).ok) := by
  fun_induction lockLoop flags vm numLocks a size locks generalizing pLock with
  | case1 k a locks =>
    rw [lockCalls, dif_pos rfl]
    simp [LockCall.locked]
  | case2 k a size locks h hvm ih =>
    rw [lockCalls, dif_neg h, if_pos hvm, ih (pLock + 12)]
    simp [locked_cons_ok]
  | case3 k a size locks h hvm =>
    rw [lockCalls, dif_neg h, if_neg hvm]
    simp [LockCall.locked]

/-- The handles of the pieces are those that are unlocked. -/
theorem lockCalls_handles (flags : ULONG) (vm : ℕ → Bool) (a size : ULONG) (pLock numLocks : ℕ) :
    (LockCall.locked (lockCalls flags vm a size pLock numLocks).calls).map (·.pLock) =
      unlockCalls pLock ((lockCalls flags vm a size pLock numLocks).numLocks - numLocks) ∧
    numLocks ≤ (lockCalls flags vm a size pLock numLocks).numLocks := by
  fun_induction lockCalls flags vm a size pLock numLocks with
  | case1 a pLock numLocks =>
    simp [LockCall.locked, unlockCalls]
  | case2 a size pLock numLocks h sz hvm rest ih =>
    obtain ⟨hmap, hle⟩ := ih
    change numLocks + 1 ≤ rest.numLocks at hle
    refine ⟨?_, Nat.le_of_succ_le hle⟩
    have hsub : rest.numLocks - numLocks = rest.numLocks - (numLocks + 1) + 1 := by omega
    dsimp only
    rw [locked_cons_ok, List.map_cons, hmap, hsub, unlockCalls]
  | case3 a size pLock numLocks h sz hvm =>
    simp [LockCall.locked, unlockCalls]

/-- One turn of the loop, as numbers. -/
theorem lockPiece_spec (sz : ULONG) (hsz : sz = lockPiece size) (h : size ≠ 0)
    (hfit : a.toNat + size.toNat < 2 ^ 32) :
    (a + sz).toNat = a.toNat + sz.toNat ∧ (size - sz).toNat = size.toNat - sz.toNat ∧
      sz.toNat = min 61440 size.toNat ∧ 0 < size.toNat := by
  subst hsz
  have hpos := lockPiece_pos h
  have hle := lockPiece_le size
  have hmin : (lockPiece size).toNat = min 61440 size.toNat := by
    unfold lockPiece
    split_ifs with hmax
    · exact (Nat.min_eq_left (BitVec.le_def.1 hmax)).symm
    · exact (Nat.min_eq_right (Nat.le_of_not_le (mt BitVec.le_def.2 hmax))).symm
  refine ⟨?_, toNat_sub_lockPiece size, hmin, by omega⟩
  rw [BitVec.toNat_add]
  exact Nat.mod_eq_of_lt (by omega)

/-- Every call is for whole pages, 15 at most, and its handle is one of the next. -/
theorem lockCalls_mem (ha : a.toNat % 4096 = 0) (hsize : size.toNat % 4096 = 0)
    (hfit : a.toNat + size.toNat < 2 ^ 32) {c : LockCall}
    (hc : c ∈ (lockCalls flags vm a size pLock numLocks).calls) :
    c.lock.addr.toNat % 4096 = 0 ∧ c.lock.size.toNat % 4096 = 0 ∧ c.lock.size.toNat ≤ 61440 ∧
      c.lock.flags = flags ∧ c.pLock + 12 ≤ pLock + 12 * ((size.toNat + 61439) / 61440) := by
  fun_induction lockCalls flags vm a size pLock numLocks with
  | case1 => cases hc
  | case2 a size pLock numLocks h sz hvm rest ih =>
    obtain ⟨hadd, hsub, hmin, hpos⟩ := lockPiece_spec sz rfl h hfit
    have hsz : sz.toNat % 4096 = 0 ∧ sz.toNat ≤ 61440 := by omega
    rcases List.mem_cons.1 hc with rfl | hc
    · exact ⟨ha, hsz.1, hsz.2, rfl, show pLock + 12 ≤ _ by omega⟩
    · obtain ⟨h₁, h₂, h₃, h₄, h₅⟩ := ih (by omega) (by omega) (by omega) hc
      exact ⟨h₁, h₂, h₃, h₄, by omega⟩
  | case3 a size pLock numLocks h sz hvm =>
    obtain ⟨hadd, hsub, hmin, hpos⟩ := lockPiece_spec sz rfl h hfit
    have hsz : sz.toNat % 4096 = 0 ∧ sz.toNat ≤ 61440 := by omega
    obtain rfl := List.mem_singleton.1 hc
    exact ⟨ha, hsz.1, hsz.2, rfl, show pLock + 12 ≤ _ by omega⟩

/-- The pieces follow one another from the first address on, to the end if all calls succeed. -/
theorem lockCalls_tiles (flags : ULONG) (vm : ℕ → Bool) (pLock numLocks : ℕ)
    (ha : a.toNat % 4096 = 0) (hsize : size.toNat % 4096 = 0)
    (hfit : a.toNat + size.toNat < 2 ^ 32) :
    ∃ e, Ranges.Tiles (·.lock.addr.toNat) LockCall.stop a.toNat
        (LockCall.locked (lockCalls flags vm a size pLock numLocks).calls) e ∧
      e ≤ a.toNat + size.toNat ∧
      ((lockCalls flags vm a size pLock numLocks).ok = true → e = a.toNat + size.toNat) := by
  fun_induction lockCalls flags vm a size pLock numLocks with
  | case1 a pLock numLocks =>
    exact ⟨a.toNat, rfl, Nat.le_refl _, fun _ => rfl⟩
  | case2 a size pLock numLocks h sz hvm rest ih =>
    obtain ⟨hadd, hsub, hmin, hpos⟩ := lockPiece_spec sz rfl h hfit
    obtain ⟨e, htiles, hle, hok⟩ := ih (by omega) (by omega) (by omega)
    refine ⟨e, ?_, by omega, fun h => ?_⟩
    · rw [hadd] at htiles
      exact ⟨rfl, htiles⟩
    · have := hok h
      omega
  | case3 a size pLock numLocks h sz hvm =>
    exact ⟨a.toNat, rfl, Nat.le_add_right .., nofun⟩

/-- The loop succeeds if all its calls do. -/
theorem lockCalls_ok (flags : ULONG) (vm : ℕ → Bool) (a size : ULONG) (pLock numLocks : ℕ) :
    (lockCalls flags vm a size pLock numLocks).ok = true ↔
      ∀ c ∈ (lockCalls flags vm a size pLock numLocks).calls, c.ok = true := by
  fun_induction lockCalls flags vm a size pLock numLocks with
  | case1 => simp
  | case2 a size pLock numLocks h sz hvm rest ih =>
    rw [List.forall_mem_cons]
    exact ih.trans (and_iff_right rfl).symm
  | case3 => simp

end Loop

/-! ### The request -/

theorem toNat_lockBytes (size : ULONG) :
    (lockBytes size).toNat = (size.toNat / 61440 + 4) * 12 := by
  have hlt := size.isLt
  have hdiv : (size / maxLockSize).toNat = size.toNat / 61440 := BitVec.toNat_udiv
  rw [lockBytes, BitVec.toNat_mul, BitVec.toNat_add, hdiv]
  show (size.toNat / 61440 + 4) % 2 ^ 32 * 12 % 2 ^ 32 = _
  omega

theorem LockRequest.fits_of_lt {c : LockRequest}
    (h : c.addr.toNat + c.size.toNat + 8190 < 2 ^ 32) : c.Fits := by
  unfold LockRequest.Fits
  dsimp only
  omega

theorem lockNewRun_calls (c : LockRequest) (vm : ℕ → Bool) (list : List LockStruct) :
    (lockNewRun c vm list).calls =
      (lockCalls c.flags vm (lockStart c.addr) (lockSize c.addr c.size) 0 0).calls := by
  unfold lockNewRun
  dsimp only
  split_ifs <;> rfl

/-- `LX_lock_mem` keeps the pieces that have been locked, and returns what the list says. -/
theorem lockNewRun_eq (c : LockRequest) (vm : ℕ → Bool) (list : List LockStruct) :
    lockMemNew c true true vm list =
      some ((lockNewRun c vm list).list, (lockNewRun c vm list).ret) := by
  have hloop : lockMem c vm = _ :=
    lockCalls_locks c.flags vm (lockStart c.addr) (lockSize c.addr c.size) 0 0 []
  rw [List.nil_append] at hloop
  simp only [lockMemNew, hloop, lockNewRun, Bool.true_eq_false, false_and, and_self, if_false]
  cases (lockCalls c.flags vm (lockStart c.addr) (lockSize c.addr c.size) 0 0).ok <;> rfl

/-- 100 KB that begin in the middle of a page. -/
def twoPieces : LockRequest := ⟨0x10800, 102400, 0⟩

/-- The second piece of them cannot be locked. -/
theorem lockNewRun_twoPieces : (lockNewRun twoPieces (· = 0) []).calls =
    [⟨⟨0x10000, 61440, 0⟩, 0, true⟩, ⟨⟨0x1f000, 45056, 0⟩, 12, false⟩] := by
  have hstart : lockStart twoPieces.addr = 0x10000 := by decide
  have hsize : lockSize twoPieces.addr twoPieces.size = 106496 := by decide
  rw [lockNewRun_calls, hstart, hsize, lockCalls, dif_neg (by decide)]
  simp only [decide_true, if_true, List.cons.injEq]
  refine ⟨by decide, ?_⟩
  rw [lockCalls, dif_neg (by decide)]
  rfl

/-- What a call of `LX_lock_mem` has done. -/
structure LockMemRun extends LockNewRun where
  /-- It has got the block for the handles and not released it. -/
  lock : Bool
  /-- It has got the memory for the entry and not released it. -/
  p : Bool

/-- `DevVMLock` writes the handle of a piece that it locks; `touches` tells whether it writes also
if it fails. -/
def writesHandle (touches : Bool) (calls : List LockCall) : Bool :=
  calls.any fun call => call.ok || touches

/-- `LX_lock_mem` from the two calls of `kmalloc` on; `lock` and `p` tell which of the two has
returned memory. -/
def lockMemAlloc (c : LockRequest) (lock p touches : Bool) (vm : ℕ → Bool)
    (list : List LockStruct) : Option LockMemRun :=
  -- `!lock && !p`: there is nothing to release then
  if lock = false ∧ p = false then some ⟨⟨[], [], list, negENOMEM⟩, false, false⟩
  -- `p->addr=addr`
  else if p = false then none
  else
    let run := lockCalls c.flags vm (lockStart c.addr) (lockSize c.addr c.size) 0 0
    if lock = false ∧ writesHandle touches run.calls = true then none
    else if run.ok then some ⟨lockNewRun c vm list, lock, p⟩
    else some ⟨lockNewRun c vm list, false, false⟩

/-- `LX_lock_mem`: it searches `list`, and locks when the list has become `list'`. -/
def lxLockMem (c : LockRequest) (lock p touches : Bool) (vm : ℕ → Bool)
    (list list' : List LockStruct) : Option LockMemRun :=
  match getLockstruct c.addr list with
  | some _ => some ⟨⟨[], [], addUse c.addr 1 list, 0⟩, false, false⟩
  | none => lockMemAlloc c lock p touches vm list'

/-- A call fails, and leaves nothing behind. -/
structure LockMemRun.FailsClean (run : LockMemRun) (list : List LockStruct) : Prop where
  /-- It returns `-ENOMEM`. -/
  ret : run.ret = negENOMEM
  /-- The block for the handles is released. -/
  lock : run.lock = false
  /-- The memory for the entry is released. -/
  p : run.p = false
  /-- Nothing has been locked. -/
  locked : LockCall.locked run.calls = []
  /-- Nothing is entered. -/
  list : run.list = list

/-- A call that needs memory and does not get it fails and leaves nothing behind, and uses no null
pointer. -/
def OutOfMemory (c : LockRequest) (lock p touches : Bool) (vm : ℕ → Bool)
    (list list' : List LockStruct) : Prop :=
  getLockstruct c.addr list = none → lock = false ∨ p = false →
    ∃ run ∈ lxLockMem c lock p touches vm list list', run.FailsClean list'

section

variable {c : LockRequest} {lock p touches : Bool} {vm : ℕ → Bool} {list list' : List LockStruct}

/-- With both blocks, it does what `lockMem_chunks` says. -/
theorem lockMemAlloc_both (c : LockRequest) (touches : Bool) (vm : ℕ → Bool)
    (list : List LockStruct) :
    (lockMemAlloc c true true touches vm list).map (·.toLockNewRun) =
      some (lockNewRun c vm list) := by
  simp only [lockMemAlloc, Bool.true_eq_false, false_and, if_false]
  split_ifs <;> rfl

/-- If the first call of `DevVMLock` fails, it is the only one. -/
theorem lockCalls_first (flags : ULONG) (a : ULONG) {size : ULONG} (hsize : size ≠ 0)
    (pLock : ℕ) {numLocks : ℕ} (hvm : vm numLocks = false) :
    lockCalls flags vm a size pLock numLocks =
      ⟨[⟨⟨a, lockPiece size, flags⟩, pLock, false⟩], numLocks, false⟩ := by
  rw [lockCalls, dif_neg hsize]
  simp [hvm]

/-- Without a block for the handles, nothing is written to it exactly if there is no piece, or the
first one cannot be locked and `DevVMLock` writes nothing then. -/
theorem writesHandle_lockCalls (touches : Bool) (flags : ULONG) (vm : ℕ → Bool) (a size : ULONG)
    (pLock numLocks : ℕ) :
    writesHandle touches (lockCalls flags vm a size pLock numLocks).calls = false ↔
      size = 0 ∨ (vm numLocks = false ∧ touches = false) := by
  by_cases hsize : size = 0
  · rw [lockCalls, dif_pos hsize]
    exact iff_of_true rfl (.inl hsize)
  · rw [or_iff_right hsize]
    cases hvm : vm numLocks with
    | false => simp [lockCalls_first flags a hsize pLock hvm, writesHandle]
    | true =>
      rw [lockCalls, dif_neg hsize]
      simp [hvm, writesHandle]

/-- The list and the result are those of `lockMemNew`. -/
theorem lockMemAlloc_eq (c : LockRequest) (lock p : Bool) (vm : ℕ → Bool) (list : List LockStruct) :
    (lockMemAlloc c lock p true vm list).map (fun run => (run.list, run.ret)) =
      lockMemNew c lock p vm list := by
  have hnew := lockNewRun_eq c vm list
  simp only [lockMemNew, Bool.true_eq_false, false_and, and_self, if_false] at hnew
  have hwrites : writesHandle true (lockCalls c.flags vm (lockStart c.addr)
      (lockSize c.addr c.size) 0 0).calls = true ↔ lockSize c.addr c.size ≠ 0 := by
    rw [← Bool.not_eq_false, writesHandle_lockCalls]
    simp
  unfold lockMemAlloc lockMemNew
  dsimp only
  rw [hnew]
  cases p with
  | false => cases lock <;> rfl
  | true =>
    simp only [Bool.true_eq_false, and_false, if_false]
    by_cases h : lock = false ∧ lockSize c.addr c.size ≠ 0
    · rw [if_pos ⟨h.1, hwrites.2 h.2⟩, if_pos h]
      rfl
    · rw [if_neg fun hw => h ⟨hw.1, hwrites.1 hw.2⟩, if_neg h]
      split_ifs <;> rfl

/-- With memory for the entry only. -/
theorem lockMemAlloc_noHandles :
    (∃ run ∈ lockMemAlloc c false true touches vm list, run.FailsClean list) ↔
      lockSize c.addr c.size ≠ 0 ∧ vm 0 = false ∧ touches = false := by
  have hwrites := writesHandle_lockCalls touches c.flags vm (lockStart c.addr)
    (lockSize c.addr c.size) 0 0
  by_cases hsize : lockSize c.addr c.size = 0
  · -- there is nothing to lock, and the entry goes to the list
    refine iff_of_false ?_ fun h => h.1 hsize
    rintro ⟨run, hrun, hclean⟩
    have hcalls : lockCalls c.flags vm (lockStart c.addr) (lockSize c.addr c.size) 0 0 =
        ⟨[], 0, true⟩ := by
      rw [lockCalls, dif_pos hsize]
    have hentered : lockMemAlloc c false true touches vm list =
        some ⟨lockNewRun c vm list, false, true⟩ := by
      simp [lockMemAlloc, hcalls, writesHandle]
    have hret : (lockNewRun c vm list).ret = 0 := by simp [lockNewRun, hcalls]
    cases hentered.symm.trans hrun
    exact absurd (hclean.ret.symm.trans hret) (by decide)
  · rw [or_iff_right hsize] at hwrites
    rw [and_iff_right hsize, ← hwrites]
    constructor
    · rintro ⟨run, hrun, -⟩
      by_contra hw
      simp [lockMemAlloc, Bool.not_eq_false _ ▸ hw] at hrun
    · intro hw
      have hcalls := lockCalls_first c.flags (lockStart c.addr) hsize 0 (hwrites.1 hw).1
      refine ⟨⟨lockNewRun c vm list, false, false⟩, ?_, ?_, rfl, rfl, ?_, ?_⟩
      · rw [hcalls] at hw
        simp [lockMemAlloc, hcalls, hw]
      · simp [lockNewRun, hcalls]
      · simp [lockNewRun, hcalls, LockCall.locked]
      · simp [lockNewRun, hcalls]

/-- **A call without memory** fails and leaves nothing behind, exactly if it has got neither block,
or the block for the entry only, and the first piece cannot be locked and no handle is written. -/
theorem outOfMemory_iff :
    OutOfMemory c lock p touches vm list list' ↔
      getLockstruct c.addr list ≠ none ∨ lock = p ∨
        (p = true ∧ lockSize c.addr c.size ≠ 0 ∧ vm 0 = false ∧ touches = false) := by
  unfold OutOfMemory lxLockMem
  cases hget : getLockstruct c.addr list with
  | some found => exact iff_of_true nofun (.inl nofun)
  | none =>
    rw [or_iff_right (not_not_intro rfl)]
    refine (imp_iff_right rfl).trans ?_
    dsimp only
    cases p with
    | false =>
      cases lock with
      | false => exact iff_of_true (fun _ => ⟨_, rfl, rfl, rfl, rfl, rfl, rfl⟩) (.inl rfl)
      | true =>
        refine iff_of_false (fun h => ?_) (by simp)
        obtain ⟨run, hrun, -⟩ := h (.inr rfl)
        cases hrun
    | true =>
      cases lock with
      | true => exact iff_of_true nofun (.inl rfl)
      | false => simpa using lockMemAlloc_noHandles

/-- A page, when there is memory for the handles but not for the entry. -/
theorem not_outOfMemory_noEntry :
    ¬ OutOfMemory ⟨0x10000, 0x1000, 0⟩ true false false (fun _ => true) [] [] := by
  intro h
  obtain ⟨run, hrun, -⟩ := h rfl (.inr rfl)
  cases hrun

end

end LxApi32
