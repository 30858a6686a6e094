import LxApi32.Daemon.Packet
import LxApi32.Lib.Align
import LxApi32.Lib.FirstMatch
import LxApi32.Lib.Machine
import LxApi32.Lib.Pick

/-!
# Locked memory

`LX_lock_mem` locks the pages of a range, in pieces of 15 pages.  The locks are kept in
`lxlock_list` under the address that was asked for; a second request for the same address only
counts its uses, whatever size and flags it has.  `LX_unlock_mem` takes a use away, and unlocks the
pages with the last one.

Between the search for the address and the locking `lx_lock_lock` is released, so two requests
for one address can both lock their pages.  The size that is rounded to pages wraps around for
requests that end within the last page of 4 GB.

* `MemLocks.always_covered` : as long as every request for an address is within those that the list
  has for it, and fits in the address space, all pages of all requests that have succeeded and are
  not unlocked are locked with their flags.

The action of an unlock says which of the successful requests for the address it belongs to.
-/

namespace LxApi32

/-- The offset bits of an address. -/
def pageOffset : ULONG := 0xfff

/-- `MAX_LOCK_SIZE`, and `PAGE_SIZE` times 15 -/
def maxLockSize : ULONG := 61440

/-- A request. -/
structure LockRequest where
  /-- `addr` -/
  addr : ULONG
  /-- `size` -/
  size : ULONG
  /-- `flags` -/
  flags : ULONG
  deriving DecidableEq, Repr

/-- What `DevVMLock` has locked. -/
structure PageLock where
  /-- The linear address. -/
  addr : ULONG
  /-- The length. -/
  size : ULONG
  /-- The flags. -/
  flags : ULONG
  deriving DecidableEq, Repr

/-- `struct lxlockstruct` -/
structure LockStruct where
  /-- `addr`, `size` and `flags` -/
  request : LockRequest
  /-- `use_count` -/
  useCount : ULONG
  /-- What the handles in `lock` stand for. -/
  locks : List PageLock
  deriving DecidableEq, Repr

/-- The first address that `_LX_lock_mem` locks. -/
def lockStart (addr : ULONG) : ULONG :=
  if addr &&& pageOffset ≠ 0 then addr &&& ~~~pageOffset else addr

/-- The size that `_LX_lock_mem` locks. -/
def lockSize (addr size : ULONG) : ULONG :=
  let size := if addr &&& pageOffset ≠ 0 then size + (addr - lockStart addr) else size
  let size := if size &&& pageOffset ≠ 0 then size + 4096 else size
  size &&& ~~~pageOffset

/-- The size of the next piece. -/
def lockPiece (size : ULONG) : ULONG := if maxLockSize ≤ size then maxLockSize else size

theorem lockPiece_le (size : ULONG) : (lockPiece size).toNat ≤ size.toNat := by
  unfold lockPiece
  split_ifs with h
  · exact BitVec.le_def.1 h
  · exact Nat.le_refl _

theorem lockPiece_pos {size : ULONG} (h : size ≠ 0) : 0 < (lockPiece size).toNat := by
  unfold lockPiece
  split_ifs
  · decide
  · exact Nat.pos_of_ne_zero fun h0 => h (BitVec.eq_of_toNat_eq h0)

theorem toNat_sub_lockPiece (size : ULONG) :
    (size - lockPiece size).toNat = size.toNat - (lockPiece size).toNat :=
  BitVec.toNat_sub_of_le (BitVec.le_def.2 (lockPiece_le size))

/-- The loop of `_LX_lock_mem` from the `k`-th piece on: the locks, and whether all calls of
`DevVMLock` have succeeded. -/
def lockLoop (flags : ULONG) (vm : ℕ → Bool) (k : ℕ) (a size : ULONG) (locks : List PageLock) :
    List PageLock × Bool :=
  if h : size = 0 then (locks, true)
  else if vm k then
    lockLoop flags vm (k + 1) (a + lockPiece size) (size - lockPiece size)
      (locks ++ [⟨a, lockPiece size, flags⟩])
  else (locks, false)
termination_by size.toNat
decreasing_by
  have hpos := lockPiece_pos h
  have hle := lockPiece_le size
  rw [toNat_sub_lockPiece]
  omega

/-- `_LX_lock_mem` -/
def lockMem (c : LockRequest) (vm : ℕ → Bool) : List PageLock × Bool :=
  lockLoop c.flags vm 0 (lockStart c.addr) (lockSize c.addr c.size) []

/-- `LX_get_lockstruct` -/
def getLockstruct (addr : ULONG) (list : List LockStruct) : Option LockStruct :=
  list.find? fun p => p.request.addr = addr

/-- Add to `use_count` of the entry that `LX_get_lockstruct` finds. -/
def addUse (addr d : ULONG) : List LockStruct → List LockStruct
  | [] => []
  | p :: rest =>
    if p.request.addr = addr then { p with useCount := p.useCount + d } :: rest
    else p :: addUse addr d rest

/-- `list_del` of the entry that `LX_get_lockstruct` finds. -/
def delLockstruct (addr : ULONG) (list : List LockStruct) : List LockStruct :=
  list.eraseP fun p => p.request.addr = addr

/-- The rest of `LX_lock_mem`, from the two calls of `kmalloc` on: the list and what it returns.
`lock` and `p` tell which of the two has returned memory. -/
def lockMemNew (c : LockRequest) (lock p : Bool) (vm : ℕ → Bool) (list : List LockStruct) :
    Option (List LockStruct × ULONG) :=
  -- `!lock && !p`
  if lock = false ∧ p = false then some (list, negENOMEM)
  -- it writes to `p`, and `DevVMLock` to `lock`
  else if p = false then none
  else if lock = false ∧ lockSize c.addr c.size ≠ 0 then none
  else match lockMem c vm with
    | (locks, true) => some (⟨c, 1, locks⟩ :: list, 0)
    -- the pieces are unlocked again
    | (_, false) => some (list, negENOMEM)

/-- `LX_unlock_mem`: the list and what it returns. -/
def unlockMem (addr : ULONG) (list : List LockStruct) : List LockStruct × ULONG :=
  match getLockstruct addr list with
  | none => (list, negENOENT)
  | some p =>
    if p.useCount - 1 = 0 then (delLockstruct addr list, 0)
    else (addUse addr (-1) list, p.useCount - 1)

/-- What a thread does. -/
inductive MemLockAct
  /-- `LX_lock_mem` until it has searched the list. -/
  | lock (c : LockRequest)
  /-- The rest of the `k`-th call that has not found its address. -/
  | lockNew (k : ℕ) (lock p : Bool) (vm : ℕ → Bool)
  /-- `LX_unlock_mem` for the `k`-th successful request, if there is one for the address. -/
  | unlock (addr : ULONG) (k : ℕ)

/-- The state. -/
structure MemLocks where
  /-- `lxlock_list` -/
  list : List LockStruct
  /-- The calls that have not found their address. -/
  pending : List LockRequest
  /-- The requests that have succeeded and are not unlocked. -/
  held : List LockRequest
  deriving DecidableEq, Repr

namespace MemLocks

/-- Which requests an unlock leaves: the `k`-th one is for the address, or none is. -/
def leave (held : List LockRequest) (addr : ULONG) (k : ℕ) : Option (List LockRequest) :=
  if ∀ c ∈ held, c.addr ≠ addr then some held
  else match held[k]? with
    | some c => if c.addr = addr then some (held.eraseIdx k) else none
    | none => none

/-- The step function. -/
def step (s : MemLocks) : MemLockAct → Option MemLocks
  | .lock c =>
    match getLockstruct c.addr s.list with
    | some _ => some { s with list := addUse c.addr 1 s.list, held := c :: s.held }
    | none => some { s with pending := c :: s.pending }
  | .lockNew k lock p vm =>
    match s.pending[k]? with
    | none => none
    | some c =>
      (lockMemNew c lock p vm s.list).map fun (list, ret) =>
        ⟨list, s.pending.eraseIdx k, if ret = 0 then c :: s.held else s.held⟩
  | .unlock addr k =>
    (leave s.held addr k).map fun held => { s with list := (unlockMem addr s.list).1, held }

/-- Nothing is locked. -/
def initial : MemLocks := ⟨[], [], []⟩

/-- The machine of the locks. -/
def machine : Machine MemLocks MemLockAct := ⟨initial, step⟩

end MemLocks

/-- The page has a byte of the range. -/
def LockRequest.Touches (c : LockRequest) (q : ℕ) : Prop :=
  ∃ x, c.addr.toNat ≤ x ∧ x < c.addr.toNat + c.size.toNat ∧ x / 4096 = q

/-- All pages and all flags of the request are among those of the other. -/
def LockRequest.Within (c c' : LockRequest) : Prop :=
  (∀ q, c.Touches q → c'.Touches q) ∧ c.flags &&& c'.flags = c.flags

/-- The pages end within the address space, and are not all of it. -/
def LockRequest.Fits (c : LockRequest) : Prop :=
  let size := (c.addr.toNat % 4096 + c.size.toNat + 4095) / 4096 * 4096
  c.addr.toNat / 4096 * 4096 + size ≤ 2 ^ 32 ∧ size < 2 ^ 32

/-- `DevVMLock` succeeds for every piece. -/
def LockRequest.Lockable (c : LockRequest) (vm : ℕ → Bool) : Prop :=
  ∀ i, i * maxLockSize.toNat < (lockSize c.addr c.size).toNat → vm i = true

/-- The whole page is locked. -/
def PageLock.Covers (l : PageLock) (q : ℕ) : Prop :=
  l.addr.toNat ≤ q * 4096 ∧ (q + 1) * 4096 ≤ l.addr.toNat + l.size.toNat

namespace MemLocks

/-- Every page of every request that has succeeded and is not unlocked is locked with at least its
flags. -/
def Covered (s : MemLocks) : Prop :=
  ∀ c ∈ s.held, ∀ q, c.Touches q →
    ∃ p ∈ s.list, ∃ l ∈ p.locks, l.Covers q ∧ c.flags &&& l.flags = c.flags

/-- A request is within those that the list has for its address, and they can count it.  A request
that is new to the list and can be locked fits; if another call was faster, both are within each
other. -/
def Orderly (s : MemLocks) : MemLockAct → Prop
  | .lock c => ∀ p ∈ s.list, p.request.addr = c.addr →
      c.Within p.request ∧ p.useCount.toNat + 1 < 2 ^ 32
  | .lockNew k _ _ vm => ∀ c, s.pending[k]? = some c → c.Lockable vm → c.Fits ∧
      (∀ p ∈ s.list, p.request.addr = c.addr → c.Within p.request) ∧
      ∀ c' ∈ s.held, c'.addr = c.addr → c'.Within c
  | .unlock .. => True

end MemLocks

/-! ### Rounding -/

theorem pageOffset_eq : pageOffset = lowMask 32 12 := by decide

theorem toNat_and_pageOffset (x : ULONG) : (x &&& pageOffset).toNat = x.toNat % 4096 := by
  rw [pageOffset_eq]
  exact toNat_and_lowMask x (by decide)

theorem toNat_and_not_pageOffset (x : ULONG) :
    (x &&& ~~~pageOffset).toNat = x.toNat / 4096 * 4096 := by
  rw [pageOffset_eq]
  exact toNat_and_not_lowMask x (by decide)

theorem and_pageOffset_eq_zero (x : ULONG) : x &&& pageOffset = 0 ↔ x.toNat % 4096 = 0 := by
  rw [← toNat_and_pageOffset, ← BitVec.toNat_inj]
  rfl

theorem toNat_lockStart (addr : ULONG) : (lockStart addr).toNat = addr.toNat / 4096 * 4096 := by
  unfold lockStart
  split_ifs with h
  · exact toNat_and_not_pageOffset addr
  · have h0 := (and_pageOffset_eq_zero addr).1 (not_not.1 h)
    omega

/-- The size that is locked, if it does not wrap around. -/
theorem toNat_lockSize {c : LockRequest} (h : c.Fits) : (lockSize c.addr c.size).toNat =
    (c.addr.toNat % 4096 + c.size.toNat + 4095) / 4096 * 4096 := by
  obtain ⟨-, hfit⟩ := h
  -- the distance to the first page
  have hoff : (if c.addr &&& pageOffset ≠ 0 then c.size + (c.addr - lockStart c.addr)
      else c.size).toNat = c.addr.toNat % 4096 + c.size.toNat := by
    have hstart := toNat_lockStart c.addr
    split_ifs with hmis
    · rw [BitVec.toNat_add, BitVec.toNat_sub_of_le (BitVec.le_def.2 (by omega)), hstart]
      omega
    · have h0 := (and_pageOffset_eq_zero c.addr).1 (not_not.1 hmis)
      omega
  unfold lockSize
  rw [toNat_and_not_pageOffset]
  generalize (if c.addr &&& pageOffset ≠ 0 then c.size + (c.addr - lockStart c.addr)
    else c.size) = x at hoff ⊢
  split_ifs with hmis
  · have hne : x.toNat % 4096 ≠ 0 := fun h0 => hmis ((and_pageOffset_eq_zero x).2 h0)
    rw [BitVec.toNat_add]
    show (x.toNat + 4096) % 2 ^ 32 / 4096 * 4096 = _
    omega
  · have h0 := (and_pageOffset_eq_zero x).1 (not_not.1 hmis)
    omega

/-! ### The pieces -/

theorem mem_lockLoop {flags : ULONG} {vm : ℕ → Bool} {k : ℕ} {a size : ULONG}
    {locks : List PageLock} {l : PageLock} (hl : l ∈ locks) :
    l ∈ (lockLoop flags vm k a size locks).1 := by
  fun_induction lockLoop flags vm k a size locks with
  | case1 => exact hl
  | case2 k a size locks h hvm ih => exact ih (List.mem_append_left _ hl)
  | case3 => exact hl

/-- The loop succeeds only if `DevVMLock` does for every piece. -/
theorem lockLoop_lockable {flags : ULONG} {vm : ℕ → Bool} {k : ℕ} {a size : ULONG}
    {locks : List PageLock} (hok : (lockLoop flags vm k a size locks).2 = true) {i : ℕ}
    (hi : i * maxLockSize.toNat < size.toNat) : vm (k + i) = true := by
  fun_induction lockLoop flags vm k a size locks generalizing i with
  | case1 k a locks => exact absurd hi (Nat.not_lt_zero _)
  | case2 k a size locks h hvm ih =>
    cases i with
    | zero => exact hvm
    | succ i =>
      rw [Nat.add_mul, Nat.one_mul] at hi
      have hpiece : lockPiece size = maxLockSize := if_pos (BitVec.le_def.2 (by omega))
      have hsub := toNat_sub_lockPiece size
      rw [hpiece] at hsub ih hok
      have hrest : i * maxLockSize.toNat < (size - maxLockSize).toNat := by omega
      have hnext : vm (k + 1 + i) = true := ih hok hrest
      rwa [Nat.add_assoc, Nat.add_comm 1] at hnext
  | case3 k a size locks h hvm => cases hok

theorem lockMem_lockable {c : LockRequest} {vm : ℕ → Bool} (hok : (lockMem c vm).2 = true) :
    c.Lockable vm := by
  intro i hi
  simpa only [Nat.zero_add] using lockLoop_lockable hok hi

/-- **The loop locks all pages** from `a` on, `size` bytes long. -/
theorem lockLoop_covers {flags : ULONG} {vm : ℕ → Bool} {k : ℕ} {a size : ULONG}
    {locks : List PageLock} (hok : (lockLoop flags vm k a size locks).2 = true)
    (ha : a.toNat % 4096 = 0) (hsize : size.toNat % 4096 = 0)
    (hfit : a.toNat + size.toNat ≤ 2 ^ 32) {q : ℕ} (hq : a.toNat ≤ q * 4096)
    (hq' : (q + 1) * 4096 ≤ a.toNat + size.toNat) :
    ∃ l ∈ (lockLoop flags vm k a size locks).1, l.Covers q ∧ l.flags = flags := by
  fun_induction lockLoop flags vm k a size locks with
  | case1 k a locks =>
    have h0 : (0 : ULONG).toNat = 0 := rfl
    omega
  | case2 k a size locks h hvm ih =>
    have hle := lockPiece_le size
    have hsub := toNat_sub_lockPiece size
    have hpiece : (lockPiece size).toNat % 4096 = 0 := by
      unfold lockPiece
      split_ifs
      · rfl
      · exact hsize
    by_cases hfirst : (q + 1) * 4096 ≤ a.toNat + (lockPiece size).toNat
    · -- the page is in the first piece
      exact ⟨⟨a, lockPiece size, flags⟩,
        mem_lockLoop (List.mem_append_right _ List.mem_cons_self), ⟨hq, hfirst⟩, rfl⟩
    · have hadd : (a + lockPiece size).toNat = a.toNat + (lockPiece size).toNat := by
        rw [BitVec.toNat_add]
        omega
      exact ih hok (by omega) (by omega) (by omega) (by omega) (by omega)
  | case3 k a size locks h hvm => cases hok

/-- **The locks of a request that fits** cover all its pages. -/
theorem lockMem_covers {c : LockRequest} {vm : ℕ → Bool} (hok : (lockMem c vm).2 = true)
    (hfit : c.Fits) {q : ℕ} (hq : c.Touches q) :
    ∃ l ∈ (lockMem c vm).1, l.Covers q ∧ l.flags = c.flags := by
  have hstart := toNat_lockStart c.addr
  have hsize := toNat_lockSize hfit
  obtain ⟨hend, -⟩ := hfit
  obtain ⟨x, hx, hx', rfl⟩ := hq
  refine lockLoop_covers hok (by omega) (by omega) (by omega) (by omega) ?_
  rw [hstart, hsize]
  omega

/-! ### The list -/

section List

variable {addr addr' d : ULONG} {p : LockStruct} {list : List LockStruct}

/-- The uses of all entries for an address. -/
def uses (addr : ULONG) (list : List LockStruct) : ℕ :=
  ((list.filter fun p => p.request.addr = addr).map fun p => p.useCount.toNat).sum

theorem uses_cons : uses addr (p :: list) =
    (if p.request.addr = addr then p.useCount.toNat else 0) + uses addr list := by
  unfold uses
  by_cases h : p.request.addr = addr <;> simp [h]

theorem getLockstruct_eq_none :
    getLockstruct addr list = none ↔ ∀ p ∈ list, p.request.addr ≠ addr := by
  simp [getLockstruct]

theorem getLockstruct_mem (h : getLockstruct addr list = some p) :
    p ∈ list ∧ p.request.addr = addr :=
  ⟨List.mem_of_find?_eq_some h, by simpa using List.find?_some h⟩

theorem addUse_eq : addUse addr d list = modifyFirst (fun p => p.request.addr = addr)
    (fun p => { p with useCount := p.useCount + d }) list :=
  FirstMatch.eq_modifyFirst rfl fun _ _ => rfl

/-- The first entry for the address, or a later one. -/
theorem getLockstruct_cons {q : LockStruct} (h : getLockstruct addr (q :: list) = some p) :
    q.request.addr = addr ∧ q = p ∨ q.request.addr ≠ addr ∧ getLockstruct addr list = some p := by
  by_cases hq : q.request.addr = addr
  · exact .inl ⟨hq, by simpa [getLockstruct, hq] using h⟩
  · exact .inr ⟨hq, by simpa [getLockstruct, hq] using h⟩

theorem uses_addUse (h : getLockstruct addr list = some p) :
    uses addr' (addUse addr d list) + (if addr = addr' then p.useCount.toNat else 0) =
      uses addr' list + if addr = addr' then (p.useCount + d).toNat else 0 := by
  induction list with
  | nil => cases h
  | cons q rest ih =>
    rcases getLockstruct_cons h with ⟨hq, rfl⟩ | ⟨hq, h'⟩
    · rw [addUse, if_pos hq, uses_cons, uses_cons]
      subst hq
      dsimp only
      split_ifs <;> omega
    · rw [addUse, if_neg hq, uses_cons, uses_cons]
      have := ih h'
      omega

theorem uses_delLockstruct (h : getLockstruct addr list = some p) :
    uses addr' (delLockstruct addr list) + (if addr = addr' then p.useCount.toNat else 0) =
      uses addr' list := by
  induction list with
  | nil => cases h
  | cons q rest ih =>
    rcases getLockstruct_cons h with ⟨hq, rfl⟩ | ⟨hq, h'⟩
    · have hdel : delLockstruct addr (q :: rest) = rest :=
        List.eraseP_cons_of_pos (by simpa using hq)
      rw [hdel, uses_cons, hq, Nat.add_comm]
    · have hdel : delLockstruct addr (q :: rest) = q :: delLockstruct addr rest :=
        List.eraseP_cons_of_neg (by simpa using hq)
      rw [hdel, uses_cons, uses_cons]
      have := ih h'
      omega

theorem mem_addUse {r : LockStruct} (h : r ∈ addUse addr d list) :
    r ∈ list ∨
      ∃ p, getLockstruct addr list = some p ∧ r = { p with useCount := p.useCount + d } := by
  rw [addUse_eq] at h
  exact FirstMatch.mem_modifyFirst h

/-- Some entry for an address that is used. -/
theorem exists_of_uses_pos (h : 0 < uses addr list) : ∃ p ∈ list, p.request.addr = addr := by
  by_contra hno
  have hnil : list.filter (fun p => p.request.addr = addr) = [] :=
    List.filter_eq_nil_iff.2 fun p hp => by simpa using fun heq => hno ⟨p, hp, heq⟩
  simp [uses, hnil] at h

theorem getLockstruct_of_uses_pos (h : 0 < uses addr list) :
    ∃ p, getLockstruct addr list = some p := by
  obtain ⟨p, hp, hpa⟩ := exists_of_uses_pos h
  rw [← Option.ne_none_iff_exists', ne_eq, getLockstruct_eq_none]
  exact fun hne => hne p hp hpa

/-- No entry for an address that is not. -/
theorem getLockstruct_of_uses_zero (hpos : ∀ p ∈ list, 0 < p.useCount.toNat)
    (h : uses addr list = 0) : getLockstruct addr list = none := by
  cases hp : getLockstruct addr list with
  | none => rfl
  | some p =>
    have hdel : uses addr (delLockstruct addr list) +
        (if addr = addr then p.useCount.toNat else 0) = uses addr list := uses_delLockstruct hp
    have := hpos p (getLockstruct_mem hp).1
    rw [if_pos rfl] at hdel
    omega

end List

/-! ### The invariant -/

theorem LockRequest.Within.refl (c : LockRequest) : c.Within c :=
  ⟨fun _ => id, BitVec.and_self⟩

namespace MemLocks

variable {s s' : MemLocks} {a : MemLockAct}

/-- Every entry has its pages locked and covers all requests for its address, and the uses of all
entries for an address are those requests. -/
structure Inv (s : MemLocks) : Prop where
  /-- An entry is in use. -/
  pos : ∀ p ∈ s.list, 0 < p.useCount.toNat
  /-- The uses are counted. -/
  count : ∀ addr, uses addr s.list = s.held.countP fun c => c.addr = addr
  /-- The requests are within the entry's. -/
  within : ∀ p ∈ s.list, ∀ c ∈ s.held, c.addr = p.request.addr → c.Within p.request
  /-- Its pages are locked. -/
  locked : ∀ p ∈ s.list, ∀ q, p.request.Touches q →
    ∃ l ∈ p.locks, l.Covers q ∧ l.flags = p.request.flags

theorem Inv.covered (hs : s.Inv) : s.Covered := by
  intro c hc q hq
  have hpos : 0 < uses c.addr s.list := by
    rw [hs.count]
    exact List.countP_pos_iff.2 ⟨c, hc, by simp⟩
  obtain ⟨p, hp, hpa⟩ := exists_of_uses_pos hpos
  obtain ⟨hpages, hflags⟩ := hs.within p hp c hc hpa.symm
  obtain ⟨l, hl, hcov, hlflags⟩ := hs.locked p hp q (hpages q hq)
  exact ⟨p, hp, l, hl, hcov, hlflags ▸ hflags⟩

theorem inv_initial : initial.Inv := ⟨nofun, fun _ => rfl, nofun, nofun⟩

/-- Entries that are counted differently. -/
theorem Inv.addUse (hs : s.Inv) {addr d : ULONG} {p : LockStruct} {held : List LockRequest}
    (hp : getLockstruct addr s.list = some p) (hd : 0 < (p.useCount + d).toNat)
    (hcount : ∀ addr', uses addr' (addUse addr d s.list) = held.countP fun c => c.addr = addr')
    (hheld : ∀ c ∈ held, c ∈ s.held ∨
      ∀ p ∈ s.list, p.request.addr = c.addr → c.Within p.request) :
    ({ s with list := LxApi32.addUse addr d s.list, held } : MemLocks).Inv := by
  have hmem : ∀ r ∈ LxApi32.addUse addr d s.list, 0 < r.useCount.toNat ∧
      ∃ p ∈ s.list, r.request = p.request ∧ r.locks = p.locks := by
    intro r hr
    rcases mem_addUse hr with hr | ⟨p', hp', rfl⟩
    · exact ⟨hs.pos r hr, r, hr, rfl, rfl⟩
    · obtain rfl : p = p' := Option.some.inj (hp.symm.trans hp')
      exact ⟨hd, p, (getLockstruct_mem hp).1, rfl, rfl⟩
  refine ⟨fun r hr => (hmem r hr).1, hcount, ?_, ?_⟩
  · intro r hr c hc hca
    obtain ⟨-, p, hp, hreq, -⟩ := hmem r hr
    rw [hreq] at hca ⊢
    exact (hheld c hc).elim (fun hc => hs.within p hp c hc hca) fun h => h p hp hca.symm
  · intro r hr q hq
    obtain ⟨-, p, hp, hreq, hlocks⟩ := hmem r hr
    rw [hreq] at hq ⊢
    rw [hlocks]
    exact hs.locked p hp q hq

/-! ### The three calls -/

theorem inv_lock (hs : s.Inv) {c : LockRequest} (ho : s.Orderly (.lock c))
    (h : step s (.lock c) = some s') : s'.Inv := by
  simp only [step] at h
  cases hp : getLockstruct c.addr s.list with
  | none =>
    rw [hp] at h
    cases h
    exact ⟨hs.pos, hs.count, hs.within, hs.locked⟩
  | some p =>
    rw [hp] at h
    cases h
    obtain ⟨hmem, hpa⟩ := getLockstruct_mem hp
    obtain ⟨-, hmax⟩ := ho p hmem hpa
    have hadd : (p.useCount + 1).toNat = p.useCount.toNat + 1 := by bv_omega
    refine hs.addUse hp (by omega) (fun addr' => ?_) ?_
    · have huse : uses addr' (LxApi32.addUse c.addr 1 s.list) + _ = _ := uses_addUse hp
      rw [hadd, hs.count] at huse
      rw [List.countP_cons]
      simp only [decide_eq_true_eq]
      split_ifs at huse ⊢ <;> omega
    · intro c' hc'
      rcases List.mem_cons.1 hc' with rfl | hc'
      · exact .inr fun p hp hpa => (ho p hp hpa).1
      · exact .inl hc'

theorem inv_new (hs : s.Inv) {c : LockRequest} {vm : ℕ → Bool} {pending : List LockRequest}
    (hfit : c.Fits) (hok : (lockMem c vm).2 = true)
    (hold : ∀ p ∈ s.list, p.request.addr = c.addr → c.Within p.request)
    (hnew : ∀ c' ∈ s.held, c'.addr = c.addr → c'.Within c) :
    (⟨⟨c, 1, (lockMem c vm).1⟩ :: s.list, pending, c :: s.held⟩ : MemLocks).Inv := by
  refine ⟨?_, ?_, ?_, ?_⟩
  · exact List.forall_mem_cons.2 ⟨by show 0 < 1; decide, hs.pos⟩
  · intro addr'
    show uses addr' (_ :: s.list) = (c :: s.held).countP _
    rw [uses_cons, List.countP_cons, hs.count, Nat.add_comm]
    simp only [decide_eq_true_eq]
    rfl
  · intro p hp c' hc' hca
    rcases List.mem_cons.1 hp with rfl | hp' <;> rcases List.mem_cons.1 hc' with rfl | hheld
    · exact .refl _
    · exact hnew c' hheld hca
    · exact hold p hp' hca.symm
    · exact hs.within p hp' c' hheld hca
  · intro p hp q hq
    rcases List.mem_cons.1 hp with rfl | hp
    · exact lockMem_covers hok hfit hq
    · exact hs.locked p hp q hq

theorem inv_lockNew (hs : s.Inv) {k : ℕ} {lock p : Bool} {vm : ℕ → Bool}
    (ho : s.Orderly (.lockNew k lock p vm)) (h : step s (.lockNew k lock p vm) = some s') :
    s'.Inv := by
  simp only [step] at h
  cases hc : s.pending[k]? with
  | none => rw [hc] at h; cases h
  | some c =>
    rw [hc] at h
    obtain ⟨⟨list, ret⟩, hres, rfl⟩ := Option.map_eq_some_iff.1 h
    have hsame : ∀ pending, (⟨s.list, pending, s.held⟩ : MemLocks).Inv := fun _ =>
      ⟨hs.pos, hs.count, hs.within, hs.locked⟩
    have hne : negENOMEM ≠ 0 := by decide
    unfold lockMemNew at hres
    split_ifs at hres
    · cases hres
      simp only [if_neg hne]
      exact hsame _
    · cases hloop : lockMem c vm with
      | mk locks ok =>
        rw [hloop] at hres
        cases ok with
        | true =>
          cases hres
          have hlocks : (lockMem c vm).1 = locks := by rw [hloop]
          have hok : (lockMem c vm).2 = true := by rw [hloop]
          obtain ⟨hfit, hold, hnew⟩ := ho c hc (lockMem_lockable hok)
          rw [← hlocks]
          exact inv_new hs hfit hok hold hnew
        | false =>
          cases hres
          simp only [if_neg hne]
          exact hsame _

theorem inv_unlock (hs : s.Inv) {addr : ULONG} {k : ℕ} (h : step s (.unlock addr k) = some s') :
    s'.Inv := by
  obtain ⟨held, hleave, rfl⟩ := Option.map_eq_some_iff.1 h
  unfold leave at hleave
  split_ifs at hleave with hnone
  · -- an address that nobody has locked
    cases hleave
    have h0 : uses addr s.list = 0 := by
      rw [hs.count]
      exact List.countP_eq_zero.2 fun c hc => by simpa using hnone c hc
    simp only [unlockMem, getLockstruct_of_uses_zero hs.pos h0]
    exact hs
  · cases hc : s.held[k]? with
    | none => rw [hc] at hleave; cases hleave
    | some c =>
      simp only [hc] at hleave
      split_ifs at hleave with hca
      cases hleave
      -- one use less
      have hcount : ∀ addr', s.held.countP (fun c => c.addr = addr') =
          (s.held.eraseIdx k).countP (fun c => c.addr = addr') + if addr = addr' then 1 else 0 := by
        intro addr'
        rw [(Pick.perm hc).countP_eq, List.countP_cons, hca]
        simp only [decide_eq_true_eq]
      have hpos : 0 < uses addr s.list := by
        rw [hs.count, hcount, if_pos rfl]
        omega
      obtain ⟨p, hp⟩ := getLockstruct_of_uses_pos hpos
      have hppos := hs.pos p (getLockstruct_mem hp).1
      have hheld : ∀ c ∈ s.held.eraseIdx k, c ∈ s.held := fun c => List.mem_of_mem_eraseIdx
      simp only [unlockMem, hp]
      split_ifs with hlast
      · -- the last use of the entry
        have hone : p.useCount.toNat = 1 := by
          rw [sub_eq_zero.1 hlast]
          rfl
        have hsub : ∀ r ∈ delLockstruct addr s.list, r ∈ s.list := fun r =>
          List.mem_of_mem_eraseP
        refine ⟨fun r hr => hs.pos r (hsub r hr), fun addr' => ?_,
          fun r hr c hc => hs.within r (hsub r hr) c (hheld c hc),
          fun r hr => hs.locked r (hsub r hr)⟩
        have hdel : uses addr' (delLockstruct addr s.list) + _ = _ := uses_delLockstruct hp
        have := hcount addr'
        rw [hone, hs.count] at hdel
        show uses addr' (delLockstruct addr s.list) = (s.held.eraseIdx k).countP _
        split_ifs at hdel this <;> omega
      · have hsub : (p.useCount + -1).toNat = p.useCount.toNat - 1 := by bv_omega
        have hge : p.useCount.toNat ≠ 1 := fun h1 => hlast (by bv_omega)
        refine hs.addUse hp (by omega) (fun addr' => ?_) fun c hc => .inl (hheld c hc)
        have huse : uses addr' (LxApi32.addUse addr (-1) s.list) + _ = _ := uses_addUse hp
        have := hcount addr'
        rw [hsub, hs.count] at huse
        split_ifs at huse this <;> omega

theorem inv_step (hs : s.Inv) (ho : s.Orderly a) (h : step s a = some s') : s'.Inv := by
  cases a with
  | lock c => exact inv_lock hs ho h
  | lockNew k lock p vm => exact inv_lockNew hs ho h
  | unlock addr k => exact inv_unlock hs h

/-- **Locks cover what was asked for** in every run whose requests are within those that the list
has for their address, and fit. -/
theorem always_covered {as : List MemLockAct} (h : machine.Along Orderly initial as) :
    machine.Always Covered initial as :=
  Machine.always_of_along (fun _ => Inv.covered) (fun _ _ _ => inv_step) inv_initial h

/-! ### One address -/

theorem lockLoop_one {flags : ULONG} {vm : ℕ → Bool} {k : ℕ} {a size : ULONG}
    {locks : List PageLock} (hsize : size ≠ 0) (hlt : ¬ maxLockSize ≤ size) (hvm : vm k = true) :
    lockLoop flags vm k a size locks = (locks ++ [⟨a, size, flags⟩], true) := by
  have hpiece : lockPiece size = size := if_neg hlt
  rw [lockLoop, dif_neg hsize, if_pos hvm, hpiece, sub_self, lockLoop, dif_pos rfl]

/-- One page at `0x10000`. -/
def onePage : LockRequest := ⟨0x10000, 0x1000, 0⟩

/-- The first request for it. -/
def lockOnePage : List MemLockAct := [.lock onePage, .lockNew 0 true true fun _ => true]

/-- The state with the page locked, `n` times. -/
def onePageLocked (n : ULONG) (held : List LockRequest) : MemLocks :=
  ⟨[⟨onePage, n, [⟨0x10000, 0x1000, 0⟩]⟩], [], held⟩

theorem step_lockNew_onePage :
    step ⟨[], [onePage], []⟩ (.lockNew 0 true true fun _ => true) =
      some (onePageLocked 1 [onePage]) := by
  have hlock : lockMem onePage (fun _ => true) = ([⟨0x10000, 0x1000, 0⟩], true) :=
    lockLoop_one (by decide) (by decide) rfl
  simp [step, lockMemNew, hlock, onePageLocked]

theorem orderly_lockOnePage {bs : List MemLockAct}
    (h : machine.Along Orderly (onePageLocked 1 [onePage]) bs) :
    machine.Along Orderly initial (lockOnePage ++ bs) := by
  refine ⟨nofun, fun s₁ h₁ => ?_⟩
  cases h₁
  refine ⟨?_, fun s₂ h₂ => ?_⟩
  · intro c hc _
    cases hc
    exact ⟨⟨by decide, by decide⟩, nofun, nofun⟩
  · cases step_lockNew_onePage.symm.trans h₂
    exact h

/-- The page is locked twice and unlocked once. -/
theorem always_covered_twice :
    machine.Always Covered initial
      (lockOnePage ++ [.lock onePage, .unlock 0x10000 0]) := by
  apply always_covered
  apply orderly_lockOnePage
  refine ⟨?_, fun _ _ => ⟨trivial, fun _ _ => trivial⟩⟩
  intro p hp _
  obtain rfl := List.mem_singleton.1 hp
  exact ⟨.refl _, by decide⟩

/-- A request for two pages at the same address succeeds, and the second page is not locked. -/
theorem not_always_covered_two_pages :
    ¬ machine.Always Covered initial (lockOnePage ++ [.lock ⟨0x10000, 0x2000, 0⟩]) := by
  intro h
  have hexec : machine.exec initial (lockOnePage ++ [.lock ⟨0x10000, 0x2000, 0⟩]) =
      some (onePageLocked 2 [⟨0x10000, 0x2000, 0⟩, onePage]) := by
    have hfirst : machine.exec initial lockOnePage = some (onePageLocked 1 [onePage]) := by
      show (step ⟨[], [onePage], []⟩ (.lockNew 0 true true fun _ => true)).bind _ = _
      rw [step_lockNew_onePage]
      rfl
    exact Machine.exec_trans hfirst rfl
  obtain ⟨p, hp, l, hl, hcov, -⟩ :=
    h.last hexec ⟨0x10000, 0x2000, 0⟩ List.mem_cons_self 0x11 ⟨0x11000, by decide⟩
  obtain rfl := List.mem_singleton.1 hp
  obtain rfl := List.mem_singleton.1 hl
  exact absurd hcov.2 (by decide)

end MemLocks

end LxApi32
