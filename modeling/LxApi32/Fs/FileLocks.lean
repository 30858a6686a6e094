import LxApi32.Kernel.Errno
import LxApi32.Lib.Machine
import Mathlib.Data.Int.Order.Basic
import Mathlib.Logic.Function.Basic

/-!
# File locks

The locks on a file are in one list, `i_flock` of its inode: first those of `flock`, which are for
the whole file, and then the POSIX locks, which are for ranges, with those of one owner next to each
other and in order.  A POSIX request that no lock of somebody else stands against goes through the
locks of its owner: it grows together with those of its type, takes the place of those of another
type, and cuts off what sticks out of it.  A request that may sleep waits for the first lock that
stands against it, unless that would close a circle of waiting owners.

Leases, the mandatory locks of `flock` and `steal_locks` are not followed.
-/

namespace LxApi32

/-- `fl_type` -/
inductive LockType
  | rdlck
  | wrlck
  | unlck
  deriving DecidableEq, Repr

/-- `FL_POSIX` or `FL_FLOCK` of `fl_flags` -/
inductive LockFlag
  | posix
  | flock
  deriving DecidableEq, Repr

/-- A `struct file_lock`. -/
structure FileLock where
  /-- Its address. -/
  id : ℕ
  /-- `fl_flags` -/
  flFlags : LockFlag
  /-- `fl_owner` -/
  flOwner : ℕ
  /-- `fl_pid` -/
  flPid : ℕ
  /-- `fl_file` -/
  flFile : ℕ
  /-- `fl_type` -/
  flType : LockType
  /-- `fl_start` -/
  flStart : ℤ
  /-- `fl_end` -/
  flEnd : ℤ
  deriving DecidableEq, Repr

/-- A request in `blocked_list`. -/
structure LockWaiter (I : Type*) where
  /-- The request. -/
  lock : FileLock
  /-- Its file. -/
  inode : I
  /-- `fl_next`: the address of the lock that it waits for. -/
  flNext : ℕ
  deriving DecidableEq, Repr

/-- The locks on all files. -/
structure FileLocks (I : Type*) where
  /-- `i_flock` -/
  iFlock : I → List FileLock
  /-- `blocked_list` -/
  blockedList : List (LockWaiter I)
  /-- The address of the next lock that is allocated. -/
  next : ℕ

/-- A `struct flock64`. -/
structure Flock64 where
  /-- `l_type` -/
  lType : LockType
  /-- `l_whence` -/
  lWhence : ℕ
  /-- `l_start` -/
  lStart : BitVec 64
  /-- `l_len` -/
  lLen : BitVec 64
  deriving DecidableEq, Repr

/-- What happens to a file. -/
inductive LockAct (I : Type*)
  /-- `fcntl_setlk64` up to the first `__posix_lock_file`, or the next one when it was woken;
  `sleep` is `F_SETLKW64`, and `mem` tells if there is memory. -/
  | setlk64 (i : I) (owner pid file : ℕ) (fPos iSize : BitVec 64) (l : Flock64) (sleep mem : Bool)
  /-- `locks_mandatory_area`, in the same way -/
  | mandatoryArea (i : I) (owner pid file : ℕ) (write : Bool) (offset : BitVec 64)
      (count : BitVec 32) (sleep : Bool)
  /-- The first half of `flock_lock_file` -/
  | flockDrop (i : I) (file : ℕ) (type : LockType)
  /-- The second half of `flock_lock_file`: `owner` is what is left in the memory of the lock. -/
  | flockTake (i : I) (owner pid file : ℕ) (type : LockType) (sleep : Bool)
  /-- `locks_remove_posix` -/
  | removePosix (i : I) (owner : ℕ)
  /-- `locks_remove_flock` -/
  | removeFlock (i : I) (file : ℕ)
  /-- `locks_delete_block`, when a signal ends the wait. -/
  | deleteBlock (id : ℕ)
  deriving DecidableEq, Repr

namespace FileLock

/-- `OFFSET_MAX` -/
def offsetMax : ℤ := 0x7fffffffffffffff

/-- A `loff_t` after an overflow. -/
def loff (x : ℤ) : ℤ := Int.bmod x 0x10000000000000000

/-- `locks_overlap` -/
def locksOverlap (fl₁ fl₂ : FileLock) : Prop := fl₂.flStart ≤ fl₁.flEnd ∧ fl₁.flStart ≤ fl₂.flEnd

/-- `posix_same_owner` -/
def posixSameOwner (fl₁ fl₂ : FileLock) : Prop := fl₁.flOwner = fl₂.flOwner ∧ fl₁.flPid = fl₂.flPid

/-- `locks_conflict` -/
def locksConflict (caller sys : FileLock) : Prop := sys.flType = .wrlck ∨ caller.flType = .wrlck

/-- `posix_locks_conflict` -/
def posixLocksConflict (caller sys : FileLock) : Prop :=
  sys.flFlags = .posix ∧ ¬ posixSameOwner caller sys ∧ locksOverlap caller sys ∧
    locksConflict caller sys

/-- `flock_locks_conflict` -/
def flockLocksConflict (caller sys : FileLock) : Prop :=
  sys.flFlags = .flock ∧ caller.flFile ≠ sys.flFile ∧ locksConflict caller sys

instance (fl₁ fl₂ : FileLock) : Decidable (locksOverlap fl₁ fl₂) :=
  inferInstanceAs (Decidable (_ ∧ _))

instance (fl₁ fl₂ : FileLock) : Decidable (posixSameOwner fl₁ fl₂) :=
  inferInstanceAs (Decidable (_ ∧ _))

instance (fl₁ fl₂ : FileLock) : Decidable (locksConflict fl₁ fl₂) :=
  inferInstanceAs (Decidable (_ ∨ _))

instance (fl₁ fl₂ : FileLock) : Decidable (posixLocksConflict fl₁ fl₂) :=
  inferInstanceAs (Decidable (_ ∧ _ ∧ _ ∧ _))

instance (fl₁ fl₂ : FileLock) : Decidable (flockLocksConflict fl₁ fl₂) :=
  inferInstanceAs (Decidable (_ ∧ _ ∧ _))

/-- A new range. -/
def setRange (start last : ℤ) (fl : FileLock) : FileLock :=
  { fl with flStart := start, flEnd := last }

end FileLock

/-- The range of a request behind `base`, or an error. -/
def flock64Range (base : BitVec 64) (l : Flock64) : Except ℤ (ℤ × ℤ) :=
  let start := (base + l.lStart).toInt
  let last := FileLock.loff (start + l.lLen.toInt - 1)
  if start < 0 ∨ l.lLen.toInt < 0 then .error (-errEINVAL)
  else if 0 < l.lLen.toInt ∧ last < 0 then .error (-errEOVERFLOW)
  else .ok (start, if l.lLen.toInt = 0 then FileLock.offsetMax else last)

/-- `flock64_to_posix_lock` -/
def flock64ToPosixLock (fPos iSize : BitVec 64) (l : Flock64) : Except ℤ (ℤ × ℤ) :=
  match l.lWhence with
  | 0 => flock64Range 0 l
  | 1 => flock64Range fPos l
  | 2 => flock64Range iSize l
  | _ => .error (-errEINVAL)

namespace FileLocks

open FileLock (offsetMax loff posixSameOwner posixLocksConflict flockLocksConflict setRange)

variable {I : Type*}

/-- `locks_wake_up_blocks` -/
def locksWakeUpBlocks (blocked : List (LockWaiter I)) (id : ℕ) : List (LockWaiter I) :=
  blocked.filter fun w => w.flNext ≠ id

/-- The lock at an address changes. -/
def modify (l : List FileLock) (id : ℕ) (f : FileLock → FileLock) : List FileLock :=
  l.map fun fl => if fl.id = id then f fl else fl

/-! ### POSIX locks -/

/-- The second loop of `__posix_lock_file`. -/
structure Scan (I : Type*) where
  /-- The locks that it has left behind, in front of `before`. -/
  front : List FileLock
  /-- `blocked_list` -/
  blocked : List (LockWaiter I)
  /-- `*request`, which can be one of the locks in front. -/
  request : FileLock
  /-- `added` -/
  added : Bool
  /-- `left`, if it is not `NULL`. -/
  left : Option ℕ

namespace Scan

/-- Go on to the next lock. -/
def pass (c : Scan I) (fl : FileLock) : Scan I := { c with front := c.front ++ [fl] }

/-- `locks_delete_lock` -/
def deleteLock (c : Scan I) (fl : FileLock) : Scan I :=
  { c with blocked := locksWakeUpBlocks c.blocked fl.id }

/-- The request gets another range, and the lock in front that it is, if it is one. -/
def grow (c : Scan I) (start last : ℤ) : Scan I :=
  { c with
    front := modify c.front c.request.id (setRange start last)
    request := c.request.setRange start last }

/-- The request is a lock from now on. -/
def become (c : Scan I) (fl : FileLock) : Scan I :=
  { c.pass fl with request := fl, added := true }

/-- One lock out of the request and a lock of the same type: both get the lower start and the higher
end. -/
def merge (c : Scan I) (fl : FileLock) : Scan I :=
  let start := min c.request.flStart fl.flStart
  let last := max c.request.flEnd fl.flEnd
  let c := c.grow start last
  if c.added then c.deleteLock fl else c.become (fl.setRange start last)

/-- The request takes the place of a lock. -/
def replace (c : Scan I) (fl : FileLock) : Scan I :=
  if c.added then c.deleteLock fl
  else
    let c := { c with blocked := locksWakeUpBlocks c.blocked fl.id }
    c.become { fl.setRange c.request.flStart c.request.flEnd with flType := c.request.flType }

/-- A lock of another type in the range: it can stick out to the left. -/
def touch (c : Scan I) (fl : FileLock) : Scan I :=
  { c with
    added := c.added || c.request.flType = .unlck
    left := if fl.flStart < c.request.flStart then some fl.id else c.left }

/-- One lock of the owner; the loop ends with `some right`. -/
def visit (c : Scan I) (fl : FileLock) : Scan I × Option (Option FileLock) :=
  if c.request.flType = fl.flType then
    if fl.flEnd < loff (c.request.flStart - 1) then (c.pass fl, none)
    else if loff (c.request.flEnd + 1) < fl.flStart then (c, some none)
    else (c.merge fl, none)
  else if fl.flEnd < c.request.flStart then (c.pass fl, none)
  else if c.request.flEnd < fl.flStart then (c, some none)
  else if c.request.flEnd < fl.flEnd then (c.touch fl, some (some fl))
  else if c.request.flStart ≤ fl.flStart then ((c.touch fl).replace fl, none)
  else ((c.touch fl).pass fl, none)

/-- The loop, `right` and the locks from `before` on -/
def scan (c : Scan I) : List FileLock → Scan I × Option FileLock × List FileLock
  | [] => (c, none, [])
  | fl :: rest =>
    if posixSameOwner c.request fl then
      match c.visit fl with
      | (c, none) => scan c rest
      | (c, some right) => (c, right, fl :: rest)
    else (c, none, fl :: rest)

/-- `new_fl`, if it is needed. -/
def newFl (c : Scan I) (n : ℕ) : List FileLock :=
  if c.added then [] else [{ c.request with id := n }]

/-- What is left of `right` begins behind the request. -/
def cutRight (c : Scan I) (right : FileLock) (l : List FileLock × List (LockWaiter I)) :
    List FileLock × List (LockWaiter I) :=
  (modify l.1 right.id fun fl => { fl with flStart := loff (c.request.flEnd + 1) },
    locksWakeUpBlocks l.2 right.id)

/-- What is left of `left` ends in front of the request. -/
def cutLeft (c : Scan I) (left : Option ℕ) (l : List FileLock × List (LockWaiter I)) :
    List FileLock × List (LockWaiter I) :=
  match left with
  | some id => (modify l.1 id fun fl => { fl with flEnd := loff (c.request.flStart - 1) },
    locksWakeUpBlocks l.2 id)
  | none => l

/-- What comes after the loop; `n` and `n + 1` are the addresses of `new_fl` and `new_fl2`. -/
def finish (c : Scan I) (right : Option FileLock) (rest : List FileLock) (n : ℕ) :
    List FileLock × List (LockWaiter I) :=
  if ¬ c.added ∧ c.request.flType = .unlck then (c.front ++ rest, c.blocked)
  else
    match right with
    | some fl =>
      -- the request breaks the lock in two
      if c.left = some fl.id then
        c.cutLeft (some (n + 1)) (c.cutRight fl
          (c.front ++ ({ fl with id := n + 1 } :: c.newFl n ++ rest), c.blocked))
      else c.cutLeft c.left (c.cutRight fl (c.front ++ (c.newFl n ++ rest), c.blocked))
    | none => c.cutLeft c.left (c.front ++ (c.newFl n ++ rest), c.blocked)

end Scan

/-- The first loop of `__posix_lock_file` skips the locks of others. -/
def skips (request fl : FileLock) : Bool := fl.flFlags ≠ .posix ∨ ¬ posixSameOwner request fl

/-- `__posix_lock_file` when nothing stands against the request -/
def posixApply (l : List FileLock) (blocked : List (LockWaiter I)) (request : FileLock) (n : ℕ) :
    List FileLock × List (LockWaiter I) :=
  let (c, right, rest) := Scan.scan
    { front := [], blocked := blocked, request := request, added := false, left := none }
    (l.dropWhile (skips request))
  let (own, blocked) := c.finish right rest n
  (l.takeWhile (skips request) ++ own, blocked)

/-- The loop of `posix_locks_deadlock`, for some turns: does the owner wait for the caller? -/
def posixLocksDeadlock (s : FileLocks I) (caller : FileLock) : ℕ → ℕ × ℕ → Option Bool
  | 0, _ => none
  | n + 1, (owner, pid) =>
    if caller.flOwner = owner ∧ caller.flPid = pid then some true
    else
      match s.blockedList.find? fun w => w.lock.flOwner = owner ∧ w.lock.flPid = pid with
      | none => some false
      | some w =>
        match (s.iFlock w.inode).find? fun fl => fl.id = w.flNext with
        | none => none
        | some fl => posixLocksDeadlock s caller n (fl.flOwner, fl.flPid)

variable [DecidableEq I]

/-- The list of one file changes. -/
def setLocks (s : FileLocks I) (i : I) (l : List FileLock × List (LockWaiter I)) : FileLocks I :=
  { s with iFlock := Function.update s.iFlock i l.1, blockedList := l.2 }

/-- `locks_insert_block` -/
def locksInsertBlock (s : FileLocks I) (i : I) (blocker waiter : FileLock) : FileLocks I :=
  { s with blockedList := ⟨waiter, i, blocker.id⟩ :: s.blockedList }

/-- `__posix_lock_file`, with what it returns: `FL_ACCESS` only asks.  It returns if one more turn
of `posix_locks_deadlock` than there are requests that wait is enough. -/
def rawPosixLockFile (s : FileLocks I) (i : I) (request : FileLock) (sleep access mem : Bool) :
    Option (FileLocks I × ℤ) :=
  let conflict := if request.flType = .unlck then none
    else (s.iFlock i).find? fun fl => posixLocksConflict request fl
  match conflict with
  | some fl =>
    if sleep then
      match s.posixLocksDeadlock request (s.blockedList.length + 1) (fl.flOwner, fl.flPid) with
      | none => none
      | some true => some (s, -errEDEADLK)
      | some false => some (s.locksInsertBlock i fl request, -errEAGAIN)
    else some (s, -errEAGAIN)
  | none =>
    if access then some (s, 0)
    else if mem then
      some ({ s with next := s.next + 2 }.setLocks i
        (posixApply (s.iFlock i) s.blockedList request s.next), 0)
    else some (s, -errENOLCK)

/-- `locks_alloc_lock` -/
def locksAllocLock (s : FileLocks I) : FileLocks I := { s with next := s.next + 1 }

/-- `fcntl_setlk64` -/
def fcntlSetlk64 (s : FileLocks I) (i : I) (owner pid file : ℕ) (fPos iSize : BitVec 64)
    (l : Flock64) (sleep mem : Bool) : Option (FileLocks I × ℤ) :=
  match flock64ToPosixLock fPos iSize l with
  | .error e => some (s, e)
  | .ok (start, last) =>
    s.locksAllocLock.rawPosixLockFile i ⟨s.next, .posix, owner, pid, file, l.lType, start, last⟩
      sleep false mem

/-- `locks_mandatory_area` -/
def locksMandatoryArea (s : FileLocks I) (i : I) (owner pid file : ℕ) (write : Bool)
    (offset : BitVec 64) (count : BitVec 32) (sleep : Bool) : Option (FileLocks I × ℤ) :=
  let type := if write then .wrlck else .rdlck
  s.locksAllocLock.rawPosixLockFile i ⟨s.next, .posix, owner, pid, file, type, offset.toInt,
    loff (offset.toInt + count.toNat - 1)⟩ sleep true true

/-! ### The locks of `flock` -/

/-- The loops of `flock_lock_file` end at the first POSIX lock. -/
def flocks (l : List FileLock) : List FileLock := l.takeWhile fun fl => fl.flFlags = .flock

/-- Locks are deleted, with `locks_delete_lock`. -/
def deleteLocks (s : FileLocks I) (i : I) (p : FileLock → Bool) : FileLocks I :=
  s.setLocks i ((s.iFlock i).filter fun fl => !p fl,
    s.blockedList.filter fun w => (s.iFlock i).all fun fl => !(p fl && fl.id = w.flNext))

/-- `flock_lock_file`, first half -/
def flockDrop (s : FileLocks I) (i : I) (file : ℕ) (type : LockType) : FileLocks I :=
  match (flocks (s.iFlock i)).find? fun fl => fl.flFile = file with
  | none => s
  | some fl => if type = fl.flType then s else s.deleteLocks i fun x => x.id = fl.id

/-- `flock_lock_file`, second half -/
def flockTake (s : FileLocks I) (i : I) (owner pid file : ℕ) (type : LockType) (sleep : Bool) :
    FileLocks I × ℤ :=
  if type = .unlck then (s, 0)
  else
    let request : FileLock := ⟨s.next, .flock, owner, pid, file, type, 0, offsetMax⟩
    let s := s.locksAllocLock
    match (flocks (s.iFlock i)).find? fun fl => flockLocksConflict request fl with
    | some fl => (if sleep then s.locksInsertBlock i fl request else s, -errEAGAIN)
    | none => (s.setLocks i (request :: s.iFlock i, s.blockedList), 0)

/-- `locks_remove_flock`, which stops at a POSIX lock of the file. -/
def locksRemoveFlock (s : FileLocks I) (i : I) (file : ℕ) : Option (FileLocks I) :=
  if ∃ fl ∈ s.iFlock i, fl.flFile = file ∧ fl.flFlags = .posix then none
  else some (s.deleteLocks i fun fl => fl.flFile = file)

/-- The step function, with what the call returns. -/
def act (s : FileLocks I) : LockAct I → Option (FileLocks I × ℤ)
  | .setlk64 i owner pid file fPos iSize l sleep mem =>
    s.fcntlSetlk64 i owner pid file fPos iSize l sleep mem
  | .mandatoryArea i owner pid file write offset count sleep =>
    s.locksMandatoryArea i owner pid file write offset count sleep
  | .flockDrop i file type => some (s.flockDrop i file type, 0)
  | .flockTake i owner pid file type sleep => some (s.flockTake i owner pid file type sleep)
  | .removePosix i owner =>
    some (s.deleteLocks i fun fl => fl.flFlags = .posix ∧ fl.flOwner = owner, 0)
  | .removeFlock i file => (s.locksRemoveFlock i file).map fun s => (s, 0)
  | .deleteBlock id =>
    some ({ s with blockedList := s.blockedList.filter fun w => w.lock.id ≠ id }, 0)

/-- No locks at first. -/
def machine (I : Type*) [DecidableEq I] : Machine (FileLocks I) (LockAct I) where
  init := { iFlock := fun _ => [], blockedList := [], next := 0 }
  step s a := (s.act a).map Prod.fst

end FileLocks

end LxApi32
