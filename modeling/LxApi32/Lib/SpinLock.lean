import Mathlib.Data.Option.Basic

/-!
# Functions that take a lock

A spin lock is taken by waiting until nobody holds it.  A function that takes it twice waits for
itself and does not return.

## Main definitions

* `Guarded S` : a value, and whether its lock is held.
* `Guarded.lift f` : a function of the value, for those that hold the lock.
* `Guarded.withLock f` : the lock is taken, `f` is called, and the lock is released.

## Main results

* `Guarded.withLock_lift` : with the lock free, what is locked returns as it does without.
* `Guarded.withLock_of_held` : with the lock held, nothing that takes it returns.
-/

namespace LxApi32

/-- Why a function does not return. -/
inductive LockStop
  /-- It waits for a lock that it holds. -/
  | relock
  /-- It does something that has no result. -/
  | fault
  /-- It has not come to its end as yet. -/
  | fuel
  deriving DecidableEq, Repr

/-- A value with its lock. -/
structure Guarded (S : Type*) where
  /-- The value. -/
  val : S
  /-- The lock is held. -/
  held : Bool
  deriving DecidableEq, Repr

namespace Guarded

variable {S R : Type}

/-- The lock is taken, which its holder waits for in vain. -/
def lock (s : Guarded S) : Except LockStop (Guarded S) :=
  if s.held then .error .relock else .ok { s with held := true }

/-- The lock is released. -/
def unlock (s : Guarded S) : Guarded S := { s with held := false }

/-- A function that leaves the lock as it is. -/
def lift (f : S → Option (R × S)) (s : Guarded S) : Except LockStop (R × Guarded S) :=
  match f s.val with
  | some (r, v) => .ok (r, { s with val := v })
  | none => .error .fault

/-- A function with the lock around it. -/
def withLock (f : Guarded S → Except LockStop (R × Guarded S)) (s : Guarded S) :
    Except LockStop (R × Guarded S) := do
  let s ← s.lock
  let (r, s) ← f s
  .ok (r, s.unlock)

variable {f : S → Option (R × S)} {s : Guarded S} {v : S} {r : R}

theorem lift_of_some (h : f s.val = some (r, v)) : lift f s = .ok (r, { s with val := v }) := by
  unfold lift
  rw [h]

theorem lift_of_none (h : f s.val = none) : lift f s = .error .fault := by
  unfold lift
  rw [h]

/-- A lock that is free is taken. -/
theorem withLock_of_free (f : Guarded S → Except LockStop (R × Guarded S)) (v : S) :
    withLock f ⟨v, false⟩ = (f ⟨v, true⟩).map (Prod.map id unlock) := by
  change (f ⟨v, true⟩ >>= fun p => Except.ok (p.1, p.2.unlock)) = _
  cases f ⟨v, true⟩ with
  | error _ => rfl
  | ok _ => rfl

/-- **With the lock free** a function returns as it does without, and the lock is free again. -/
theorem withLock_lift {v' : S} (h : f v = some (r, v')) :
    withLock (lift f) ⟨v, false⟩ = .ok (r, ⟨v', false⟩) := by
  rw [withLock_of_free, lift_of_some h]
  rfl

theorem withLock_lift_none (h : f v = none) :
    withLock (lift f) ⟨v, false⟩ = .error .fault := by
  rw [withLock_of_free, lift_of_none h]
  rfl

/-- **With the lock held** nothing that takes it returns. -/
theorem withLock_of_held (f : Guarded S → Except LockStop (R × Guarded S)) (v : S) :
    withLock f ⟨v, true⟩ = .error .relock :=
  rfl

end Guarded

end LxApi32
