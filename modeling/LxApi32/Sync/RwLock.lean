import LxApi32.Lib.Machine
import LxApi32.Lib.Tally
import Mathlib.Data.Fintype.Card
import Mathlib.Tactic.Linarith

/-!
# Reader/writer spin locks

The lock word of a `rwlock_t` is `RW_LOCK_BIAS` when it is free.  A reader takes 1 from it, a
writer takes `RW_LOCK_BIAS`, and who then finds that it was not free gives back what it took and
spins until it looks free.  The word is an unsigned 32 bit number, and the tests look at its sign.

* `RwLock.Inv` : the word is what is left of `RW_LOCK_BIAS`, in 32 bits.
* `RwLock.writer_excludes` : with at most 128 threads nobody else holds the lock together with a
  writer, whatever the order of the instructions of all threads.
-/

namespace LxApi32

/-- `RW_LOCK_BIAS` -/
def rwLockBias : ℤ := 0x01000000

/-- Where a thread is. -/
inductive RwPc
  /-- It does not use the lock. -/
  | out
  /-- At the beginning of `__read_lock_failed`, with 1 taken. -/
  | readLockFailed
  /-- At the `cmpl` of `__read_lock_failed`. -/
  | readSpins
  /-- At the `decl` of `__read_lock_failed`. -/
  | readRetries
  /-- It holds the lock for reading. -/
  | reading
  /-- At the beginning of `__write_lock_failed`, with `RW_LOCK_BIAS` taken. -/
  | writeLockFailed
  /-- At the `cmpl` of `__write_lock_failed`. -/
  | writeSpins
  /-- At the `subl` of `__write_lock_failed`. -/
  | writeRetries
  /-- It holds the lock for writing. -/
  | writing
  /-- At the `atomic_add` of `_raw_write_trylock`. -/
  | trylockFailed
  deriving DecidableEq, Repr

/-- What a thread does next. -/
inductive RwAct (T : Type*)
  /-- `_raw_read_lock` -/
  | rawReadLock (t : T)
  /-- `_raw_write_lock` -/
  | rawWriteLock (t : T)
  /-- `_raw_write_trylock` -/
  | rawWriteTrylock (t : T)
  /-- `_raw_read_unlock` -/
  | rawReadUnlock (t : T)
  /-- `_raw_write_unlock` -/
  | rawWriteUnlock (t : T)
  /-- The next instruction of a function that has not returned. -/
  | next (t : T)
  deriving DecidableEq, Repr

/-- A `rwlock_t` and the threads that use it. -/
structure RwLock (T : Type*) where
  /-- `lock` -/
  lock : BitVec 32
  /-- Where each thread is. -/
  pc : T → RwPc

namespace RwLock

variable {T : Type*} [DecidableEq T]

/-- A locked addition to the word, and where its result leads the thread. -/
def xadd (s : RwLock T) (t : T) (d : ℤ) (dest : BitVec 32 → RwPc) : RwLock T :=
  { lock := s.lock + BitVec.ofInt 32 d
    pc := Function.update s.pc t (dest (s.lock + BitVec.ofInt 32 d)) }

/-- The thread goes on without writing. -/
def goto (s : RwLock T) (t : T) (p : RwPc) : RwLock T := { s with pc := Function.update s.pc t p }

/-- `js`: a reader that has taken its 1. -/
def readTaken (r : BitVec 32) : RwPc := if r.msb then .readLockFailed else .reading

/-- `jnz`: a writer that has taken `RW_LOCK_BIAS`. -/
def writeTaken (r : BitVec 32) : RwPc := if r = 0 then .writing else .writeLockFailed

/-- `sete` in `atomic_sub_and_test`. -/
def tryTaken (r : BitVec 32) : RwPc := if r = 0 then .writing else .trylockFailed

/-- One instruction on the word. -/
def step (s : RwLock T) : RwAct T → Option (RwLock T)
  | .rawReadLock t => if s.pc t = .out then some (s.xadd t (-1) readTaken) else none
  | .rawWriteLock t =>
    if s.pc t = .out then some (s.xadd t (-rwLockBias) writeTaken) else none
  | .rawWriteTrylock t =>
    if s.pc t = .out then some (s.xadd t (-rwLockBias) tryTaken) else none
  | .rawReadUnlock t => if s.pc t = .reading then some (s.xadd t 1 fun _ => .out) else none
  | .rawWriteUnlock t =>
    if s.pc t = .writing then some (s.xadd t rwLockBias fun _ => .out) else none
  | .next t =>
    match s.pc t with
    | .readLockFailed => some (s.xadd t 1 fun _ => .readSpins)
    | .readSpins => some (s.goto t (if (s.lock - 1).msb then .readSpins else .readRetries))
    | .readRetries => some (s.xadd t (-1) readTaken)
    | .writeLockFailed => some (s.xadd t rwLockBias fun _ => .writeSpins)
    | .writeSpins =>
      some (s.goto t (if s.lock = BitVec.ofInt 32 rwLockBias then .writeRetries else .writeSpins))
    | .writeRetries => some (s.xadd t (-rwLockBias) writeTaken)
    | .trylockFailed => some (s.xadd t rwLockBias fun _ => .out)
    | _ => none

/-- `RW_LOCK_UNLOCKED`, before anybody uses it. -/
def machine (T : Type*) [DecidableEq T] : Machine (RwLock T) (RwAct T) where
  init := { lock := BitVec.ofInt 32 rwLockBias, pc := fun _ => .out }
  step := step

/-- What a thread at this place has taken from the word. -/
def taken : RwPc → ℤ
  | .readLockFailed | .reading => 1
  | .writeLockFailed | .writing | .trylockFailed => rwLockBias
  | .out | .readSpins | .readRetries | .writeSpins | .writeRetries => 0

theorem taken_nonneg (p : RwPc) : 0 ≤ taken p := by cases p <;> decide

theorem taken_le (p : RwPc) : taken p ≤ rwLockBias := by cases p <;> decide

/-- An addition of `d` to the word takes as much from it as its thread has then, and the thread
gets the lock only if the result says so. -/
structure Takes (s : RwLock T) (t : T) (d : ℤ) (dest : BitVec 32 → RwPc) : Prop where
  taken : ∀ r, taken (dest r) = taken (s.pc t) - d
  reading : ∀ r, dest r = .reading → r.msb = false
  writing : ∀ r, dest r = .writing → r = 0

variable {s s' : RwLock T} {t : T} {a : RwAct T}

omit [DecidableEq T] in
/-- A reader asks for the lock. -/
theorem takes_read (h : taken (s.pc t) = 0) : s.Takes t (-1) readTaken where
  taken r := by rw [h, readTaken]; split <;> rfl
  reading r hr := by simpa [readTaken] using hr
  writing r hr := by rw [readTaken] at hr; split at hr <;> cases hr

omit [DecidableEq T] in
/-- A writer asks for the lock. -/
theorem takes_write (h : taken (s.pc t) = 0) : s.Takes t (-rwLockBias) writeTaken where
  taken r := by rw [h, writeTaken]; split <;> rfl
  reading r hr := by rw [writeTaken] at hr; split at hr <;> cases hr
  writing r hr := by simpa [writeTaken] using hr

omit [DecidableEq T] in
theorem takes_try (h : taken (s.pc t) = 0) : s.Takes t (-rwLockBias) tryTaken where
  taken r := by rw [h, tryTaken]; split <;> rfl
  reading r hr := by rw [tryTaken] at hr; split at hr <;> cases hr
  writing r hr := by simpa [tryTaken] using hr

omit [DecidableEq T] in
/-- What was taken is given back. -/
theorem takes_back {d : ℤ} {p : RwPc} (h : RwLock.taken (s.pc t) = d) (hp : RwLock.taken p = 0)
    (hpr : p ≠ .reading) (hpw : p ≠ .writing) : s.Takes t d fun _ => p where
  taken r := by rw [h, hp, sub_self]
  reading r hr := absurd hr hpr
  writing r hr := absurd hr hpw

/-- **What an instruction does.**  It adds to the word, or its thread looks at the word and does
not have the lock. -/
theorem step_cases (h : s.step a = some s') :
    (∃ t d dest, s' = s.xadd t d dest ∧ s.Takes t d dest) ∨
    ∃ t p, s' = s.goto t p ∧ taken p = taken (s.pc t) ∧ p ≠ .reading ∧ p ≠ .writing := by
  cases a with
  | rawReadLock t =>
    simp only [step, Option.ite_none_right_eq_some, Option.some.injEq] at h
    exact .inl ⟨t, _, _, h.2.symm, takes_read (by rw [h.1]; rfl)⟩
  | rawWriteLock t =>
    simp only [step, Option.ite_none_right_eq_some, Option.some.injEq] at h
    exact .inl ⟨t, _, _, h.2.symm, takes_write (by rw [h.1]; rfl)⟩
  | rawWriteTrylock t =>
    simp only [step, Option.ite_none_right_eq_some, Option.some.injEq] at h
    exact .inl ⟨t, _, _, h.2.symm, takes_try (by rw [h.1]; rfl)⟩
  | rawReadUnlock t =>
    simp only [step, Option.ite_none_right_eq_some, Option.some.injEq] at h
    exact .inl ⟨t, _, _, h.2.symm, takes_back (by rw [h.1]; rfl) rfl nofun nofun⟩
  | rawWriteUnlock t =>
    simp only [step, Option.ite_none_right_eq_some, Option.some.injEq] at h
    exact .inl ⟨t, _, _, h.2.symm, takes_back (by rw [h.1]; rfl) rfl nofun nofun⟩
  | next t =>
    simp only [step] at h
    split at h <;> rename_i hpc
    · exact .inl ⟨t, _, _, (Option.some.inj h).symm, takes_back (by rw [hpc]; rfl) rfl nofun nofun⟩
    · refine .inr ⟨t, _, (Option.some.inj h).symm, ?_, ?_, ?_⟩
      · rw [hpc]; split <;> rfl
      · split <;> nofun
      · split <;> nofun
    · exact .inl ⟨t, _, _, (Option.some.inj h).symm, takes_read (by rw [hpc]; rfl)⟩
    · exact .inl ⟨t, _, _, (Option.some.inj h).symm, takes_back (by rw [hpc]; rfl) rfl nofun nofun⟩
    · refine .inr ⟨t, _, (Option.some.inj h).symm, ?_, ?_, ?_⟩
      · rw [hpc]; split <;> rfl
      · split <;> nofun
      · split <;> nofun
    · exact .inl ⟨t, _, _, (Option.some.inj h).symm, takes_write (by rw [hpc]; rfl)⟩
    · exact .inl ⟨t, _, _, (Option.some.inj h).symm, takes_back (by rw [hpc]; rfl) rfl nofun nofun⟩
    · cases h

variable [Fintype T]

/-- The word is what is left of `RW_LOCK_BIAS`, and nobody shares the lock with a writer. -/
structure Inv (s : RwLock T) : Prop where
  word : s.lock = BitVec.ofInt 32 (rwLockBias - Tally.tally taken s.pc)
  exclusive : ∀ t u, t ≠ u → s.pc t = .writing → s.pc u ≠ .writing ∧ s.pc u ≠ .reading

omit [DecidableEq T] in
/-- The word does not overflow. -/
theorem toInt_left (hcard : Fintype.card T ≤ 128) (f : T → RwPc) :
    (BitVec.ofInt 32 (rwLockBias - Tally.tally taken f)).toInt =
      rwLockBias - Tally.tally taken f := by
  have hlow := Tally.tally_nonneg (f := f) taken_nonneg
  have hhigh := Tally.tally_le (f := f) taken_le
  have hmul : (Fintype.card T : ℤ) * rwLockBias ≤ 128 * rwLockBias := by
    have : (Fintype.card T : ℤ) ≤ 128 := by exact_mod_cast hcard
    exact mul_le_mul_of_nonneg_right this (by decide)
  rw [BitVec.toInt_ofInt]
  simp only [rwLockBias] at *
  rw [Int.bmod_eq_of_le] <;> omega

omit [DecidableEq T] in
/-- A thread with the lock leaves nothing for a writer, and with a writer nothing for a reader. -/
theorem Inv.not_holding {f : T → RwPc} {u : T} (hne : u ≠ t)
    (h : Tally.tally taken f ≤ taken (f t)) : f u ≠ .writing ∧ f u ≠ .reading := by
  have hsum := Tally.add_le_tally (f := f) taken_nonneg hne
  have hzero : taken (f u) ≤ 0 := by linarith
  refine ⟨fun hu => ?_, fun hu => ?_⟩ <;> rw [hu] at hzero <;> exact absurd hzero (by decide)

/-- An addition keeps the invariant. -/
theorem Inv.xadd (hcard : Fintype.card T ≤ 128) {d : ℤ} {dest : BitVec 32 → RwPc} (hI : s.Inv)
    (h : s.Takes t d dest) : (s.xadd t d dest).Inv := by
  set r := s.lock + BitVec.ofInt 32 d with hr
  set f := Function.update s.pc t (dest r) with hf
  have hself : f t = dest r := Function.update_self ..
  have htally : Tally.tally taken f = Tally.tally taken s.pc - d := by
    rw [hf, Tally.tally_update, h.taken]
    ring
  have hword : r = BitVec.ofInt 32 (rwLockBias - Tally.tally taken f) := by
    rw [hr, hI.word, ← BitVec.ofInt_add, htally]
    congr 1
    ring
  have hleft := toInt_left hcard f
  rw [← hword] at hleft
  -- the thread that moves is a writer, or another one is
  have hwriter : ∀ u, u ≠ t → f t = .writing → f u ≠ .writing ∧ f u ≠ .reading := by
    intro u hne ht
    have hzero : r.toInt = 0 := by rw [h.writing r (hself.symm.trans ht)]; rfl
    apply not_holding hne
    rw [ht]
    change _ ≤ rwLockBias
    linarith
  have hreader : ∀ u, u ≠ t → f u = .writing → f t ≠ .reading := by
    intro u hne hu ht
    have hsign := h.reading r (hself.symm.trans ht)
    rw [BitVec.msb_eq_toInt, decide_eq_false_iff_not, not_lt, hleft] at hsign
    have hsum := Tally.add_le_tally (f := f) taken_nonneg hne
    rw [hu, ht] at hsum
    change rwLockBias + 1 ≤ _ at hsum
    linarith
  have hother : ∀ u, u ≠ t → f u = s.pc u := fun u hne => Function.update_of_ne hne ..
  refine ⟨hword, fun u v hne hu => ?_⟩
  change f u = .writing at hu
  change f v ≠ .writing ∧ f v ≠ .reading
  rcases eq_or_ne u t with rfl | hut
  · exact hwriter v hne.symm hu
  rcases eq_or_ne v t with rfl | hvt
  · exact ⟨fun hv => (hwriter u hut hv).1 hu, hreader u hut hu⟩
  · rw [hother v hvt]
    exact hI.exclusive u v hne (hother u hut ▸ hu)

/-- Looking at the word keeps it. -/
theorem Inv.goto {p : RwPc} (hI : s.Inv) (htaken : taken p = taken (s.pc t)) (hr : p ≠ .reading)
    (hw : p ≠ .writing) : (s.goto t p).Inv where
  word := by
    change s.lock = BitVec.ofInt 32 (rwLockBias - Tally.tally taken (Function.update s.pc t p))
    rw [Tally.tally_update, htaken, sub_add_cancel]
    exact hI.word
  exclusive u v hne hu := by
    change Function.update s.pc t p u = .writing at hu
    change Function.update s.pc t p v ≠ .writing ∧ Function.update s.pc t p v ≠ .reading
    rcases eq_or_ne u t with rfl | hut
    · rw [Function.update_self] at hu
      exact absurd hu hw
    rw [Function.update_of_ne hut] at hu
    rcases eq_or_ne v t with rfl | hvt
    · rw [Function.update_self]
      exact ⟨hw, hr⟩
    · rw [Function.update_of_ne hvt]
      exact hI.exclusive u v hne hu

/-- Every instruction keeps the invariant. -/
theorem Inv.step (hcard : Fintype.card T ≤ 128) (hI : s.Inv) (h : s.step a = some s') :
    s'.Inv := by
  rcases step_cases h with ⟨t, d, dest, rfl, htakes⟩ | ⟨t, p, rfl, htaken, hr, hw⟩
  · exact hI.xadd hcard htakes
  · exact hI.goto htaken hr hw

theorem inv_init : (machine T).init.Inv where
  word := by
    have hzero : Tally.tally taken (machine T).init.pc = 0 := Tally.tally_eq_zero fun _ => rfl
    rw [hzero, sub_zero]
    rfl
  exclusive _ _ _ h := by cases h

/-- **Exclusion.**  In every state that at most 128 threads can reach, by any interleaving of their
instructions, nobody holds the lock together with a writer; and the word says that the lock is
free when no thread is in it or on its way. -/
theorem writer_excludes (hcard : Fintype.card T ≤ 128) {as : List (RwAct T)}
    (hrun : (machine T).exec (machine T).init as = some s) :
    (∀ t u, t ≠ u → s.pc t = .writing → s.pc u ≠ .writing ∧ s.pc u ≠ .reading) ∧
      ((∀ t, s.pc t = .out) → s.lock = BitVec.ofInt 32 rwLockBias) := by
  have hI : s.Inv := (Machine.run_anyStep_iff.2 hrun).invariant
    (fun _ _ _ hI _ hst => Inv.step hcard hI hst) inv_init
  refine ⟨hI.exclusive, fun hout => ?_⟩
  have hzero : Tally.tally taken s.pc = 0 := by
    rw [funext hout]
    exact Tally.tally_eq_zero fun _ => rfl
  rw [hI.word, hzero, sub_zero]

/-- Two readers, and a writer that waits for both. -/
def twoReaders : List (RwAct (Fin 3)) :=
  [.rawReadLock 0, .rawReadLock 1, .rawWriteLock 2, .next 2, .rawReadUnlock 0, .next 2,
    .rawReadUnlock 1, .next 2, .next 2]

theorem writer_excludes_twoReaders :
    ∃ s : RwLock (Fin 3),
      (machine (Fin 3)).exec (machine (Fin 3)).init twoReaders = some s ∧ s.pc 2 = .writing ∧
      (∀ t u, t ≠ u → s.pc t = .writing → s.pc u ≠ .writing ∧ s.pc u ≠ .reading) ∧
      ((∀ t, s.pc t = .out) → s.lock = BitVec.ofInt 32 rwLockBias) := by
  have hrun := Option.eq_some_of_isSome
    (o := (machine (Fin 3)).exec (machine (Fin 3)).init twoReaders) rfl
  exact ⟨_, hrun, rfl, writer_excludes (by decide) hrun⟩

end RwLock

end LxApi32
