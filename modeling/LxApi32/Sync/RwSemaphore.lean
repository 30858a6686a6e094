import LxApi32.Lib.Machine
import LxApi32.Lib.Tally
import Mathlib.Data.Fintype.Card
import Mathlib.Tactic.Linarith

/-!
# Reader/writer semaphores

The low word of `count` is the number of tasks that are active, which are those with the semaphore
and those that have just asked for it.  The high word is the negated number of writers among them
and of tasks in the queue.  A task that does not get the semaphore at once puts itself into the
queue, and is given the semaphore by the one that takes it out of there.

* `RwSemaphore.writer_alone` : nobody shares the semaphore with a writer, as long as no
  `__downgrade_write` finds a reader in front of the queue.
* `RwSemaphore.release_stuck` : who releases the semaphore as the last one that has it wakes nobody.
  The test behind the `decw` in `__up_read` and `__up_write` jumps when the low word is 0, and so
  `rwsem_wake` is called only when there is nothing to do.

A task in the queue waits for its `flags` to become zero; that it sleeps meanwhile is left out.
-/

namespace LxApi32

/-- `-RWSEM_WAITING_BIAS` -/
def rwsemWaitingBias : ℤ := 0x10000

/-- Where a task goes on behind `__rwsem_do_wake`. -/
inductive WakeBack
  /-- `__up_read` and `__up_write` -/
  | out
  /-- The loop of `rwsem_down_failed_common`, to write or to read. -/
  | waiting (w : Bool)
  deriving DecidableEq, Repr

/-- Where a task is. -/
inductive RwsemPc
  /-- It does not use the semaphore. -/
  | out
  /-- It has the semaphore for reading. -/
  | reading
  /-- It has the semaphore for writing. -/
  | writing
  /-- At the beginning of `rwsem_down_write_failed` or `rwsem_down_read_failed`. -/
  | failed (w : Bool)
  /-- In the queue, before the `rwsem_atomic_update` of `rwsem_down_failed_common`. -/
  | queued (w : Bool)
  /-- In the loop of `rwsem_down_failed_common`. -/
  | waiting (w : Bool)
  /-- At the beginning of `rwsem_wake`. -/
  | upWakes
  /-- At the beginning of `rwsem_downgrade_wake`. -/
  | downgradeWakes
  /-- At `try_again` in `__rwsem_do_wake`. -/
  | tryAgain (b : WakeBack)
  /-- At `undo`. -/
  | undo (b : WakeBack)
  /-- At `readers_only`. -/
  | readersOnly (b : WakeBack)
  deriving DecidableEq, Repr

/-- A task with its `struct rwsem_waiter`. -/
structure RwsemTask where
  /-- Where it is. -/
  pc : RwsemPc
  /-- `flags`: `RWSEM_WAITING_FOR_WRITE`, `RWSEM_WAITING_FOR_READ`, or zero. -/
  flags : Option Bool
  deriving DecidableEq, Repr

/-- A `struct rw_semaphore` with the tasks that use it. -/
structure RwSemaphore (T : Type*) where
  /-- `count` -/
  count : ℤ
  /-- The holder of `wait_lock`. -/
  lock : Option T
  /-- `wait_list` -/
  list : List T
  /-- The tasks. -/
  task : T → RwsemTask

/-- What a task does. -/
inductive RwsemAct (T : Type*)
  /-- `__down_read` -/
  | downRead (t : T)
  /-- `__down_read_trylock` -/
  | downReadTrylock (t : T)
  /-- `__down_write` -/
  | downWrite (t : T)
  /-- `__down_write_trylock` -/
  | downWriteTrylock (t : T)
  /-- `__up_read` -/
  | upRead (t : T)
  /-- `__up_write` -/
  | upWrite (t : T)
  /-- `__downgrade_write` -/
  | downgradeWrite (t : T)
  /-- The next step of a function that has not returned. -/
  | next (t : T)
  deriving DecidableEq, Repr

namespace RwSemaphore

/-- `count & RWSEM_ACTIVE_MASK` -/
def activePart (c : ℤ) : ℤ := c % rwsemWaitingBias

/-- The place behind `__rwsem_do_wake`. -/
def back : WakeBack → RwsemPc
  | .out => .out
  | .waiting w => .waiting w

variable {T : Type*} [DecidableEq T]

/-- A task goes to another place. -/
def goto (s : RwSemaphore T) (t : T) (p : RwsemPc) : RwSemaphore T :=
  { s with task := Function.update s.task t { s.task t with pc := p } }

/-- A task adds to `count` and goes to another place. -/
def add (s : RwSemaphore T) (t : T) (d : ℤ) (p : RwsemPc) : RwSemaphore T :=
  { s with count := s.count + d }.goto t p

/-- The waiter's `flags` are zeroised. -/
def grant (task : T → RwsemTask) (u : T) : T → RwsemTask :=
  Function.update task u { task u with flags := none }

/-- `waiter->flags & RWSEM_WAITING_FOR_READ` -/
def forRead (s : RwSemaphore T) (u : T) : Bool := (s.task u).flags = some false

/-- The readers in front of the queue: the first waiter, and the readers behind it. -/
def frontReaders (s : RwSemaphore T) : List T :=
  match s.list with
  | [] => []
  | u :: q => u :: q.takeWhile s.forRead

/-- `readers_only`: the semaphore is granted to the readers in front, and `count` changes by as
much, less 1. -/
def grantReaders (s : RwSemaphore T) : RwSemaphore T :=
  { s with
    count := s.count + (s.frontReaders.length * (1 + rwsemWaitingBias) - 1)
    list := s.list.drop s.frontReaders.length
    task := fun u => if u ∈ s.frontReaders then { s.task u with flags := none } else s.task u }

/-- `__rwsem_do_wake` from `try_again` on. -/
def tryAgain (s : RwSemaphore T) (t : T) (b : WakeBack) : Option (RwSemaphore T) :=
  if activePart s.count ≠ 0 then some (s.add t 1 (.undo b))
  else
    match s.list with
    | [] => none
    | u :: q =>
      if (s.task u).flags = some true then
        let s' := { s with lock := none, list := q }.add t 1 (back b)
        some { s' with task := grant s'.task u }
      else some (s.add t 1 (.readersOnly b))

/-- The next step of a function that has not returned. -/
def next (s : RwSemaphore T) (t : T) : Option (RwSemaphore T) :=
  match (s.task t).pc with
  | .failed w =>
    if s.lock = none then
      some { s with
        lock := some t, list := s.list ++ [t]
        task := Function.update s.task t ⟨.queued w, some w⟩ }
    else none
  | .queued w =>
    let d := if w then -1 else -rwsemWaitingBias - 1
    if activePart (s.count + d) = 0 then some (s.add t d (.tryAgain (.waiting w)))
    else some ({ s with lock := none }.add t d (.waiting w))
  | .waiting w =>
    if (s.task t).flags = none then some (s.goto t (if w then .writing else .reading)) else none
  | .upWakes =>
    if s.lock = none then
      if s.list = [] then some (s.goto t .out)
      else some ({ s with lock := some t }.goto t (.tryAgain .out))
    else none
  | .downgradeWakes =>
    if s.lock = none then
      match s.list with
      | [] => some (s.goto t .reading)
      | u :: _ =>
        if (s.task u).flags = some true then some (s.goto t .reading)
        else some (s.grantReaders.goto t .reading)
    else none
  | .tryAgain b => s.tryAgain t b
  | .undo b =>
    if s.count - 1 ≠ 0 then some ({ s with lock := none }.add t (-1) (back b))
    else some (s.add t (-1) (.tryAgain b))
  | .readersOnly b => some ({ s.grantReaders with lock := none }.goto t (back b))
  | .out | .reading | .writing => none

/-- Where `__up_read` and `__up_write` go with the new `count`: `decw` of the low word of the old
one gives that of the new one. -/
def released (c : ℤ) : RwsemPc := if activePart c = 0 then .out else .upWakes

/-- The step function. -/
def step (s : RwSemaphore T) : RwsemAct T → Option (RwSemaphore T)
  | .downRead t =>
    if (s.task t).pc = .out then
      some (s.add t 1 (if 0 ≤ s.count + 1 then .reading else .failed false))
    else none
  | .downReadTrylock t =>
    if (s.task t).pc = .out then
      if 0 ≤ s.count then some (s.add t 1 .reading) else some s
    else none
  | .downWrite t =>
    if (s.task t).pc = .out then
      some (s.add t (1 - rwsemWaitingBias) (if s.count = 0 then .writing else .failed true))
    else none
  | .downWriteTrylock t =>
    if (s.task t).pc = .out then
      if s.count = 0 then some (s.add t (1 - rwsemWaitingBias) .writing) else some s
    else none
  | .upRead t =>
    if (s.task t).pc = .reading then
      some (s.add t (-1) (if 0 ≤ s.count - 1 then .out else released (s.count - 1)))
    else none
  | .upWrite t =>
    if (s.task t).pc = .writing then
      let c := s.count + (rwsemWaitingBias - 1)
      some (s.add t (rwsemWaitingBias - 1) (if c = 0 then .out else released c))
    else none
  | .downgradeWrite t =>
    if (s.task t).pc = .writing then
      some (s.add t rwsemWaitingBias
        (if 0 ≤ s.count + rwsemWaitingBias then .reading else .downgradeWakes))
    else none
  | .next t => s.next t

/-- `init_rwsem` -/
def machine (T : Type*) [DecidableEq T] : Machine (RwSemaphore T) (RwsemAct T) where
  init := { count := 0, lock := none, list := [], task := fun _ => ⟨.out, none⟩ }
  step := step

/-- `rwsem_downgrade_wake` does not find a reader in front of the queue. -/
def NoDowngrade (s : RwSemaphore T) (a : RwsemAct T) : Prop :=
  ∀ t, a = .next t → (s.task t).pc = .downgradeWakes →
    ∀ u q, s.list = u :: q → (s.task u).flags = some true

/-! ### What a task stands for in `count` -/

/-- It counts in the low word. -/
def active : RwsemTask → ℤ
  | ⟨.reading, _⟩ | ⟨.writing, _⟩ | ⟨.failed _, _⟩ | ⟨.queued _, _⟩ | ⟨.downgradeWakes, _⟩
  | ⟨.undo _, _⟩ | ⟨.readersOnly _, _⟩ | ⟨.waiting _, none⟩ => 1
  | _ => 0

/-- It counts in the high word. -/
def bias : RwsemTask → ℤ
  | ⟨.writing, _⟩ | ⟨.failed true, _⟩ | ⟨.queued true, _⟩ | ⟨.waiting true, none⟩
  | ⟨.waiting _, some _⟩ | ⟨.tryAgain (.waiting _), _⟩ | ⟨.undo (.waiting _), _⟩
  | ⟨.readersOnly (.waiting _), _⟩ => 1
  | _ => 0

/-- It has the semaphore for reading, or is about to share it. -/
def HasRead : RwsemTask → Prop
  | ⟨.reading, _⟩ | ⟨.downgradeWakes, _⟩ | ⟨.readersOnly _, _⟩ | ⟨.waiting false, none⟩ => True
  | _ => False

/-- It has the semaphore for writing. -/
def HasWrite : RwsemTask → Prop
  | ⟨.writing, _⟩ | ⟨.waiting true, none⟩ => True
  | _ => False

/-- It has the lock. -/
def InLock : RwsemPc → Prop
  | .queued _ | .tryAgain _ | .undo _ | .readersOnly _ => True
  | _ => False

/-- What a task in the queue waits for. -/
def wants : RwsemPc → Option Bool
  | .queued w | .waiting w | .tryAgain (.waiting w) | .undo (.waiting w)
  | .readersOnly (.waiting w) => some w
  | _ => none

/-- A task by its place and its flags. -/
theorem eta (x : RwsemTask) : ⟨x.pc, x.flags⟩ = x := rfl

theorem active_nonneg (x : RwsemTask) : 0 ≤ active x := by unfold active; split <;> decide

theorem active_le (x : RwsemTask) : active x ≤ 1 := by unfold active; split <;> decide

theorem bias_nonneg (x : RwsemTask) : 0 ≤ bias x := by unfold bias; split <;> decide

theorem bias_le (x : RwsemTask) : bias x ≤ 1 := by unfold bias; split <;> decide

theorem HasRead.active_eq {x : RwsemTask} (h : HasRead x) : active x = 1 := by
  unfold HasRead at h
  split at h <;> first | rfl | exact h.elim

theorem HasWrite.active_eq {x : RwsemTask} (h : HasWrite x) : active x = 1 := by
  unfold HasWrite at h
  split at h <;> first | rfl | exact h.elim

theorem HasWrite.bias_eq {x : RwsemTask} (h : HasWrite x) : bias x = 1 := by
  unfold HasWrite at h
  split at h <;> first | rfl | exact h.elim

/-- Without the lock a task in the queue is in the loop. -/
theorem eq_waiting {p : RwsemPc} {w : Bool} (h : some w = wants p) (hlock : ¬ InLock p) :
    p = .waiting w := by
  cases p with
  | waiting w' =>
    obtain rfl : w = w' := Option.some.inj h
    rfl
  | queued _ | tryAgain _ | undo _ | readersOnly _ => exact absurd trivial hlock
  | _ => cases h

/-! ### The invariant -/

variable {s s' : RwSemaphore T} {a : RwsemAct T} {t u : T} {b : WakeBack} {p : RwsemPc}

/-- What has happened so far is in `count`, in the queue and in the places of the tasks. -/
structure Inv [Fintype T] (s : RwSemaphore T) : Prop where
  word : s.count = Tally.tally active s.task - rwsemWaitingBias * Tally.tally bias s.task
  exclusive : ∀ t u, t ≠ u → HasWrite (s.task t) → ¬ HasRead (s.task u) ∧ ¬ HasWrite (s.task u)
  lock : ∀ t, InLock (s.task t).pc → s.lock = some t
  nodup : s.list.Nodup
  flags : ∀ t ∈ s.list, (s.task t).flags ≠ none ∧ (s.task t).flags = wants (s.task t).pc
  listed : ∀ t, InLock (s.task t).pc → wants (s.task t).pc ≠ none → t ∈ s.list
  front : ∀ t b, (s.task t).pc = .readersOnly b →
    ∃ u q, s.list = u :: q ∧ (s.task u).flags = some false

variable [Fintype T]

omit [DecidableEq T] in
/-- The low word has no carry. -/
theorem tally_active_le (hcard : Fintype.card T ≤ 32766) (f : T → RwsemTask) :
    Tally.tally active f ≤ 32766 := by
  have hle := Tally.tally_le (f := f) active_le
  have : (Fintype.card T : ℤ) ≤ 32766 := by exact_mod_cast hcard
  linarith

omit [DecidableEq T] in
theorem tally_bias_le (hcard : Fintype.card T ≤ 32766) (f : T → RwsemTask) :
    Tally.tally bias f ≤ 32766 := by
  have hle := Tally.tally_le (f := f) bias_le
  have : (Fintype.card T : ℤ) ≤ 32766 := by exact_mod_cast hcard
  linarith

omit [DecidableEq T] in
/-- **The low word** is the number of active tasks. -/
theorem Inv.activePart (hcard : Fintype.card T ≤ 32766) (hI : s.Inv) :
    RwSemaphore.activePart s.count = Tally.tally active s.task := by
  have hpos := Tally.tally_nonneg (f := s.task) active_nonneg
  have hle := tally_active_le hcard s.task
  rw [RwSemaphore.activePart, hI.word, Int.sub_mul_emod_self_left]
  exact Int.emod_eq_of_lt hpos (by rw [rwsemWaitingBias]; omega)

omit [DecidableEq T] in
/-- Nobody is active. -/
theorem Inv.of_idle (hzero : Tally.tally active s.task = 0) (u : T) :
    ¬ HasRead (s.task u) ∧ ¬ HasWrite (s.task u) := by
  have hle := Tally.le_tally (f := s.task) active_nonneg u
  exact ⟨fun h => by rw [h.active_eq] at hle; omega, fun h => by rw [h.active_eq] at hle; omega⟩

omit [DecidableEq T] in
/-- **The sign.**  No writer has the semaphore when `count` is not negative with one more. -/
theorem Inv.of_nonneg (hcard : Fintype.card T ≤ 32766) (hI : s.Inv) (h : 0 ≤ s.count + 1) (u : T) :
    ¬ HasWrite (s.task u) := by
  intro hu
  have hbias := Tally.le_tally (f := s.task) bias_nonneg u
  have hle := tally_active_le hcard s.task
  have hword := hI.word
  rw [hu.bias_eq] at hbias
  rw [rwsemWaitingBias] at hword
  omega

omit [DecidableEq T] in
/-- Nobody has the semaphore, nor waits for it, when `count` is zero. -/
theorem Inv.of_zero (hcard : Fintype.card T ≤ 32766) (hI : s.Inv) (h : s.count = 0) (u : T) :
    ¬ HasRead (s.task u) ∧ ¬ HasWrite (s.task u) := by
  have hpart := hI.activePart hcard
  rw [h] at hpart
  exact Inv.of_idle hpart.symm u

/-! ### Steps that keep the queue -/

omit [DecidableEq T] in
/-- Who has no place in the queue is not in it. -/
theorem Inv.not_mem (hI : s.Inv) (h : wants (s.task t).pc = none) : t ∉ s.list := by
  intro hmem
  obtain ⟨hne, heq⟩ := hI.flags t hmem
  exact hne (heq.trans h)

omit [DecidableEq T] in
/-- With the lock, or when it is free, nobody else has it. -/
theorem Inv.alone (hI : s.Inv) (h : InLock (s.task t).pc ∨ s.lock = none) (hne : u ≠ t) :
    ¬ InLock (s.task u).pc := by
  intro hu
  have hlock := hI.lock u hu
  rcases h with ht | hfree
  · exact hne (Option.some.inj (hlock.symm.trans (hI.lock t ht)))
  · cases hfree.symm.trans hlock

/-- **One task moves**, and adds to `count` what it stands for less or more. -/
theorem Inv.add (hI : s.Inv) {q : RwsemPc} {d : ℤ} (l : Option T) (hpc : (s.task t).pc = q)
    (hd : d = active ⟨p, (s.task t).flags⟩ - active ⟨q, (s.task t).flags⟩ -
      rwsemWaitingBias * (bias ⟨p, (s.task t).flags⟩ - bias ⟨q, (s.task t).flags⟩))
    (hwrite : HasWrite ⟨p, (s.task t).flags⟩ → HasWrite ⟨q, (s.task t).flags⟩ ∨
      ∀ u, ¬ HasRead (s.task u) ∧ ¬ HasWrite (s.task u))
    (hread : HasRead ⟨p, (s.task t).flags⟩ → HasRead ⟨q, (s.task t).flags⟩ ∨
      ∀ u, u ≠ t → ¬ HasWrite (s.task u))
    (hlock : InLock p → l = some t) (hothers : l = s.lock ∨ InLock q ∨ s.lock = none)
    (hwants : t ∈ s.list → wants p = wants q) (hlisted : InLock p → wants p ≠ none → t ∈ s.list)
    (hfront : ∀ b, p = .readersOnly b → ∃ u q, s.list = u :: q ∧ (s.task u).flags = some false) :
    ({ s with lock := l }.add t d p).Inv := by
  have hself : s.task t = ⟨q, (s.task t).flags⟩ := by rw [← hpc]
  set x : RwsemTask := ⟨p, (s.task t).flags⟩ with hx
  set f := Function.update s.task t x with hf
  have hft : f t = x := Function.update_self ..
  have hfu : ∀ u, u ≠ t → f u = s.task u := fun u hne => Function.update_of_ne hne ..
  rw [← hself] at hd hwrite hread
  refine ⟨?_, fun u v hne hu => ?_, fun u hu => ?_, hI.nodup, fun u hu => ?_, fun u hu hw => ?_,
    fun u b hu => ?_⟩
  · change s.count + d = Tally.tally active f - rwsemWaitingBias * Tally.tally bias f
    rw [hf, Tally.tally_update, Tally.tally_update, hI.word, hd]
    ring
  · change HasWrite (f u) at hu
    change ¬ HasRead (f v) ∧ ¬ HasWrite (f v)
    rcases eq_or_ne u t with rfl | hut
    · rw [hfu v hne.symm]
      rw [hft] at hu
      exact (hwrite hu).elim (fun h => hI.exclusive u v hne h) fun h => h v
    rw [hfu u hut] at hu
    rcases eq_or_ne v t with rfl | hvt
    · rw [hft]
      refine ⟨fun hv => ?_, fun hv => ?_⟩
      · exact (hread hv).elim (hI.exclusive u v hne hu).1 fun h => h u hut hu
      · exact (hwrite hv).elim (hI.exclusive u v hne hu).2 fun h => (h u).2 hu
    · rw [hfu v hvt]
      exact hI.exclusive u v hne hu
  · change InLock (f u).pc at hu
    change l = some u
    rcases eq_or_ne u t with rfl | hut
    · rw [hft] at hu
      exact hlock hu
    rw [hfu u hut] at hu
    rcases hothers with rfl | hq
    · exact hI.lock u hu
    · rw [← hpc] at hq
      exact absurd hu (hI.alone hq hut)
  · change (f u).flags ≠ none ∧ (f u).flags = wants (f u).pc
    change u ∈ s.list at hu
    rcases eq_or_ne u t with rfl | hut
    · rw [hft]
      change (s.task u).flags ≠ none ∧ (s.task u).flags = wants p
      rw [hwants hu, ← hpc]
      exact hI.flags u hu
    · rw [hfu u hut]
      exact hI.flags u hu
  · change InLock (f u).pc at hu
    change wants (f u).pc ≠ none at hw
    change u ∈ s.list
    rcases eq_or_ne u t with rfl | hut
    · rw [hft] at hu hw
      exact hlisted hu hw
    · rw [hfu u hut] at hu hw
      exact hI.listed u hu hw
  · change (f u).pc = .readersOnly b at hu
    change ∃ v q, s.list = v :: q ∧ (f v).flags = some false
    have hkeep : ∀ v, (f v).flags = (s.task v).flags := by
      intro v
      rcases eq_or_ne v t with rfl | hvt
      · rw [hft]
      · rw [hfu v hvt]
    simp only [hkeep]
    rcases eq_or_ne u t with rfl | hut
    · rw [hft] at hu
      exact hfront b hu
    · rw [hfu u hut] at hu
      exact hI.front u b hu

omit [Fintype T] in
/-- A task that goes on without a change of `count`. -/
theorem goto_eq_add (s : RwSemaphore T) (t : T) (p : RwsemPc) : s.goto t p = s.add t 0 p := by
  rw [add, add_zero]

/-- The same outside of the queue and without the lock. -/
theorem Inv.call (hI : s.Inv) {q : RwsemPc} {d : ℤ} (hpc : (s.task t).pc = q)
    (hq : wants q = none) (hp : wants p = none) (hnot : ¬ InLock p)
    (hd : d = active ⟨p, (s.task t).flags⟩ - active ⟨q, (s.task t).flags⟩ -
      rwsemWaitingBias * (bias ⟨p, (s.task t).flags⟩ - bias ⟨q, (s.task t).flags⟩))
    (hwrite : HasWrite ⟨p, (s.task t).flags⟩ → HasWrite ⟨q, (s.task t).flags⟩ ∨
      ∀ u, ¬ HasRead (s.task u) ∧ ¬ HasWrite (s.task u))
    (hread : HasRead ⟨p, (s.task t).flags⟩ → HasRead ⟨q, (s.task t).flags⟩ ∨
      ∀ u, u ≠ t → ¬ HasWrite (s.task u)) : (s.add t d p).Inv :=
  hI.add s.lock hpc hd hwrite hread (fun h => absurd h hnot) (.inl rfl)
    (fun _ => hp.trans hq.symm) (fun h => absurd h hnot) fun _ hb => absurd (hb ▸ trivial) hnot

/-- A task that releases the semaphore goes out, or to `rwsem_wake`. -/
theorem released_cases (P : RwsemPc → Prop) (c : ℤ) (hout : P .out) (hwakes : P .upWakes) :
    P (released c) := by
  unfold released
  split <;> assumption

/-- The tasks that ask for the semaphore, and those that release it. -/
theorem Inv.step_call (hcard : Fintype.card T ≤ 32766) (hI : s.Inv) (hnext : ∀ t, a ≠ .next t)
    (h : s.step a = some s') : s'.Inv := by
  cases a with
  | next t => exact absurd rfl (hnext t)
  | downRead t =>
    simp only [step, Option.ite_none_right_eq_some, Option.some.injEq] at h
    obtain ⟨hpc, rfl⟩ := h
    split_ifs with hcount
    · exact hI.call hpc rfl rfl id rfl (fun h => h.elim)
        fun _ => .inr fun u _ => hI.of_nonneg hcard hcount u
    · exact hI.call hpc rfl rfl id rfl (fun h => h.elim) fun h => h.elim
  | downReadTrylock t =>
    simp only [step, Option.ite_none_right_eq_some] at h
    obtain ⟨hpc, h⟩ := h
    split_ifs at h with hcount <;> cases h
    · exact hI.call hpc rfl rfl id rfl (fun h => h.elim)
        fun _ => .inr fun u _ => hI.of_nonneg hcard (by omega) u
    · exact hI
  | downWrite t =>
    simp only [step, Option.ite_none_right_eq_some, Option.some.injEq] at h
    obtain ⟨hpc, rfl⟩ := h
    split_ifs with hcount
    · exact hI.call hpc rfl rfl id rfl (fun _ => .inr (hI.of_zero hcard hcount)) fun h => h.elim
    · exact hI.call hpc rfl rfl id rfl (fun h => h.elim) fun h => h.elim
  | downWriteTrylock t =>
    simp only [step, Option.ite_none_right_eq_some] at h
    obtain ⟨hpc, h⟩ := h
    split_ifs at h with hcount <;> cases h
    · exact hI.call hpc rfl rfl id rfl (fun _ => .inr (hI.of_zero hcard hcount)) fun h => h.elim
    · exact hI
  | upRead t =>
    simp only [step, Option.ite_none_right_eq_some, Option.some.injEq] at h
    obtain ⟨hpc, rfl⟩ := h
    have hout : (s.add t (-1) .out).Inv :=
      hI.call hpc rfl rfl id rfl (fun h => h.elim) fun h => h.elim
    split_ifs with hcount
    · exact hout
    · exact released_cases (fun p => (s.add t (-1) p).Inv) _ hout
        (hI.call hpc rfl rfl id rfl (fun h => h.elim) fun h => h.elim)
  | upWrite t =>
    simp only [step, Option.ite_none_right_eq_some, Option.some.injEq] at h
    obtain ⟨hpc, rfl⟩ := h
    have hout : (s.add t (rwsemWaitingBias - 1) .out).Inv :=
      hI.call hpc rfl rfl id rfl (fun h => h.elim) fun h => h.elim
    split_ifs with hcount
    · exact hout
    · exact released_cases (fun p => (s.add t (rwsemWaitingBias - 1) p).Inv) _ hout
        (hI.call hpc rfl rfl id rfl (fun h => h.elim) fun h => h.elim)
  | downgradeWrite t =>
    simp only [step, Option.ite_none_right_eq_some, Option.some.injEq] at h
    obtain ⟨hpc, rfl⟩ := h
    -- a writer that becomes a reader still has the semaphore for itself
    have halone : ∀ u, u ≠ t → ¬ HasWrite (s.task u) := fun u hne =>
      (hI.exclusive t u hne.symm (by rw [← eta (s.task t), hpc]; trivial)).2
    split_ifs with hcount
    · exact hI.call hpc rfl rfl id rfl (fun h => h.elim) fun _ => .inr halone
    · exact hI.call hpc rfl rfl id rfl (fun h => h.elim) fun _ => .inr halone

/-! ### Steps in the queue -/

omit [DecidableEq T] in
/-- A task in the queue that has the lock knows what it waits for. -/
theorem Inv.flags_of_lock (hI : s.Inv) {w : Bool} (h : InLock (s.task t).pc)
    (hw : wants (s.task t).pc = some w) : t ∈ s.list ∧ (s.task t).flags = some w := by
  have hmem := hI.listed t h (by rw [hw]; nofun)
  exact ⟨hmem, (hI.flags t hmem).2.trans hw⟩

/-- A task gets into the queue. -/
theorem Inv.enter (hI : s.Inv) {w : Bool} (hpc : (s.task t).pc = .failed w)
    (hlock : s.lock = none) :
    ({ s with
      lock := some t, list := s.list ++ [t]
      task := Function.update s.task t ⟨.queued w, some w⟩ } : RwSemaphore T).Inv := by
  have hself : s.task t = ⟨.failed w, (s.task t).flags⟩ := by rw [← hpc]
  have hmem := hI.not_mem (t := t) (by rw [hpc]; rfl)
  set f := Function.update s.task t ⟨.queued w, some w⟩ with hf
  have hft : f t = ⟨.queued w, some w⟩ := Function.update_self ..
  have hfu : ∀ u, u ≠ t → f u = s.task u := fun u hne => Function.update_of_ne hne ..
  refine ⟨?_, fun u v hne hu => ?_, fun u hu => ?_, ?_, fun u hu => ?_, fun u hu _ => ?_,
    fun u b hu => ?_⟩
  · change s.count = Tally.tally active f - rwsemWaitingBias * Tally.tally bias f
    rw [hf, Tally.tally_update, Tally.tally_update, hself, hI.word]
    cases w <;> simp [active, bias]
  · change HasWrite (f u) at hu
    change ¬ HasRead (f v) ∧ ¬ HasWrite (f v)
    rcases eq_or_ne u t with rfl | hut
    · rw [hft] at hu
      exact hu.elim
    rw [hfu u hut] at hu
    rcases eq_or_ne v t with rfl | hvt
    · rw [hft]
      exact ⟨id, id⟩
    · rw [hfu v hvt]
      exact hI.exclusive u v hne hu
  · change InLock (f u).pc at hu
    rcases eq_or_ne u t with rfl | hut
    · rfl
    · rw [hfu u hut] at hu
      exact absurd hu (hI.alone (t := t) (.inr hlock) hut)
  · exact hI.nodup.append (List.nodup_singleton t) (List.disjoint_singleton.2 hmem)
  · change (f u).flags ≠ none ∧ (f u).flags = wants (f u).pc
    rcases List.mem_append.1 hu with hin | hin
    · rw [hfu u fun heq => hmem (heq ▸ hin)]
      exact hI.flags u hin
    · rw [List.mem_singleton.1 hin, hft]
      exact ⟨nofun, rfl⟩
  · change InLock (f u).pc at hu
    rcases eq_or_ne u t with rfl | hut
    · exact List.mem_append_right _ (List.mem_singleton_self u)
    · rw [hfu u hut] at hu
      exact absurd hu (hI.alone (t := t) (.inr hlock) hut)
  · change (f u).pc = .readersOnly b at hu
    rcases eq_or_ne u t with rfl | hut
    · rw [hft] at hu
      cases hu
    · rw [hfu u hut] at hu
      exact absurd (hu ▸ trivial) (hI.alone (t := t) (.inr hlock) hut)

omit [DecidableEq T] in
/-- Nobody has the lock. -/
theorem Inv.of_unlocked (hfree : ∀ t, ¬ InLock (s.task t).pc)
    (hword : s.count = Tally.tally active s.task - rwsemWaitingBias * Tally.tally bias s.task)
    (hexcl : ∀ t u, t ≠ u → HasWrite (s.task t) → ¬ HasRead (s.task u) ∧ ¬ HasWrite (s.task u))
    (hnodup : s.list.Nodup)
    (hflags : ∀ t ∈ s.list, (s.task t).flags ≠ none ∧ (s.task t).flags = wants (s.task t).pc) :
    s.Inv where
  word := hword
  exclusive := hexcl
  lock t ht := absurd ht (hfree t)
  nodup := hnodup
  flags := hflags
  listed t ht := absurd ht (hfree t)
  front t _ ht := absurd (ht ▸ trivial) (hfree t)

/-- The tasks when the one with the lock, on its way to `b`, goes there. -/
def goneBack (s : RwSemaphore T) (t : T) (b : WakeBack) : T → RwsemTask :=
  Function.update s.task t ⟨back b, (s.task t).flags⟩

/-- Where the one with the lock goes on is a place in the queue or outside. -/
structure OnWay (s : RwSemaphore T) (t : T) (b : WakeBack) : Prop where
  inLock : InLock (s.task t).pc
  wants : wants (s.task t).pc = RwSemaphore.wants (back b)

omit [Fintype T] in
theorem goneBack_of_ne (hne : u ≠ t) : s.goneBack t b u = s.task u := Function.update_of_ne hne ..

omit [Fintype T] in
theorem goneBack_self : s.goneBack t b t = ⟨back b, (s.task t).flags⟩ := Function.update_self ..

omit [Fintype T] in
theorem goneBack_flags (u : T) : (s.goneBack t b u).flags = (s.task u).flags := by
  rcases eq_or_ne u t with rfl | hne
  · rw [goneBack_self]
  · rw [goneBack_of_ne hne]

/-- Nobody has the lock then. -/
theorem OnWay.not_inLock (h : s.OnWay t b) (hI : s.Inv) (u : T) :
    ¬ InLock (s.goneBack t b u).pc := by
  rcases eq_or_ne u t with rfl | hne
  · rw [goneBack_self]
    cases b <;> exact id
  · rw [goneBack_of_ne hne]
    exact hI.alone (.inl h.inLock) hne

/-- A task in the queue keeps its `flags`. -/
theorem OnWay.flags (h : s.OnWay t b) (hI : s.Inv) {u : T} (hu : u ∈ s.list) :
    (s.goneBack t b u).flags ≠ none ∧ (s.goneBack t b u).flags = RwSemaphore.wants
      (s.goneBack t b u).pc := by
  rcases eq_or_ne u t with rfl | hne
  · rw [goneBack_self]
    change (s.task u).flags ≠ none ∧ (s.task u).flags = RwSemaphore.wants (back b)
    rw [← h.wants]
    exact hI.flags u hu
  · rw [goneBack_of_ne hne]
    exact hI.flags u hu

/-- A task in the queue is in the loop then. -/
theorem OnWay.waiting (h : s.OnWay t b) (hI : s.Inv) {w : Bool} (hu : u ∈ s.list)
    (hw : (s.task u).flags = some w) : s.goneBack t b u = ⟨.waiting w, some w⟩ := by
  have hflags := h.flags hI hu
  have hlock := h.not_inLock hI u
  rw [goneBack_flags, hw] at hflags
  have hpc := eq_waiting hflags.2 hlock
  rw [← eta (s.goneBack t b u), hpc, goneBack_flags, hw]

/-- The one with the lock does not have the semaphore then. -/
theorem OnWay.not_has (h : s.OnWay t b) (hI : s.Inv) :
    active (s.goneBack t b t) = 0 ∧ bias (s.goneBack t b t) = if b = .out then 0 else 1 := by
  cases b with
  | out => rw [goneBack_self]; exact ⟨rfl, rfl⟩
  | waiting w =>
    obtain ⟨hmem, hflags⟩ := hI.flags_of_lock h.inLock h.wants
    rw [h.waiting hI hmem hflags]
    exact ⟨rfl, by cases w <;> rfl⟩

/-- **A writer is taken out of the queue.** -/
theorem Inv.grantWriter (hcard : Fintype.card T ≤ 32766) (hI : s.Inv) {q : List T}
    (hpc : (s.task t).pc = .tryAgain b) (hzero : RwSemaphore.activePart s.count = 0)
    (hlist : s.list = u :: q) (hu : (s.task u).flags = some true) :
    ({ s with
      count := s.count + 1, lock := none, list := q
      task := grant (s.goneBack t b) u } : RwSemaphore T).Inv := by
  have hway : s.OnWay t b := ⟨hpc ▸ trivial, by rw [hpc]; cases b <;> rfl⟩
  have hidle : Tally.tally active s.task = 0 := (hI.activePart hcard).symm.trans hzero
  have hmem : u ∈ s.list := hlist ▸ List.mem_cons_self
  have hnodup : u ∉ q ∧ q.Nodup := List.nodup_cons.1 (hlist ▸ hI.nodup)
  have hwait := hway.waiting hI hmem hu
  set f := s.goneBack t b with hf
  have hgu : grant f u u = ⟨.waiting true, none⟩ := by
    rw [grant, Function.update_self, hwait]
  have hgv : ∀ v, v ≠ u → grant f u v = f v := fun v hne => Function.update_of_ne hne ..
  have hself : s.task t = ⟨.tryAgain b, (s.task t).flags⟩ := by rw [← hpc]
  have hactive : Tally.tally active f = 0 := by
    rw [hf, goneBack, Tally.tally_update, ← goneBack_self, (hway.not_has hI).1, hself, hidle]
    rfl
  have hbias : Tally.tally bias f = Tally.tally bias s.task := by
    rw [hf, goneBack, Tally.tally_update, ← goneBack_self, (hway.not_has hI).2, hself]
    cases b <;> simp [bias]
  have hnone : ∀ v, v ≠ u → ¬ HasRead (grant f u v) ∧ ¬ HasWrite (grant f u v) := by
    intro v hne
    rw [hgv v hne]
    exact Inv.of_idle (s := { s with task := f }) hactive v
  refine Inv.of_unlocked (fun v => ?_) ?_ (fun v w hne hv => ?_) hnodup.2 fun v hv => ?_
  · change ¬ InLock (grant f u v).pc
    rcases eq_or_ne v u with rfl | hne
    · rw [hgu]
      exact id
    · rw [hgv v hne]
      exact hway.not_inLock hI v
  · change s.count + 1 = Tally.tally active (grant f u) -
      rwsemWaitingBias * Tally.tally bias (grant f u)
    rw [grant, Tally.tally_update, Tally.tally_update, hwait, hactive, hbias, hI.word, hidle]
    simp only [active, bias]
    ring
  · change HasWrite (grant f u v) at hv
    change ¬ HasRead (grant f u w) ∧ ¬ HasWrite (grant f u w)
    have hvu : v = u := by
      by_contra hvu
      exact (hnone v hvu).2 hv
    exact hnone w fun hwu => hne (hvu.trans hwu.symm)
  · change (grant f u v).flags ≠ none ∧ (grant f u v).flags = wants (grant f u v).pc
    rw [hgv v fun heq => hnodup.1 (heq ▸ hv)]
    exact hway.flags hI (hlist ▸ List.mem_cons_of_mem _ hv)

omit [DecidableEq T] [Fintype T] in
/-- The readers in front are a part of the queue. -/
theorem frontReaders_append (s : RwSemaphore T) :
    s.frontReaders ++ s.list.drop s.frontReaders.length = s.list := by
  have hprefix : s.frontReaders <+: s.list := by
    unfold frontReaders
    split
    next h => exact h ▸ List.prefix_rfl
    next h => exact h ▸ List.cons_prefix_cons.2 ⟨rfl, List.takeWhile_prefix _⟩
  exact List.prefix_iff_eq_append.1 hprefix

omit [DecidableEq T] [Fintype T] in
/-- They are readers. -/
theorem flags_of_mem_frontReaders {q : List T} (hlist : s.list = u :: q)
    (hu : (s.task u).flags = some false) {v : T} (hv : v ∈ s.frontReaders) :
    (s.task v).flags = some false := by
  rw [frontReaders, hlist] at hv
  rcases List.mem_cons.1 hv with rfl | hv
  · exact hu
  · simpa [forRead] using List.all_eq_true.1 List.all_takeWhile v hv

/-- **Readers are taken out of the queue.** -/
theorem Inv.grantReaders (hI : s.Inv) (hpc : (s.task t).pc = .readersOnly b) :
    ({ s.grantReaders with lock := none }.goto t (back b)).Inv := by
  obtain ⟨u, q, hlist, hu⟩ := hI.front t b hpc
  have hway : s.OnWay t b := ⟨hpc ▸ trivial, by rw [hpc]; cases b <;> rfl⟩
  have happend := s.frontReaders_append
  have hread : ∀ v ∈ s.frontReaders, (s.task v).flags = some false := fun v =>
    flags_of_mem_frontReaders hlist hu
  have hnodup : (s.frontReaders ++ s.list.drop s.frontReaders.length).Nodup :=
    happend.symm ▸ hI.nodup
  set f := s.goneBack t b with hf
  set g : T → RwsemTask := fun v =>
    if v ∈ s.frontReaders then { f v with flags := none } else f v with hg
  have htask : ({ s.grantReaders with lock := none }.goto t (back b)).task = g := by
    funext v
    rcases eq_or_ne v t with rfl | hne
    · simp only [goto, RwSemaphore.grantReaders, Function.update_self, hg, hf, goneBack_self]
      split <;> rfl
    · simp only [goto, RwSemaphore.grantReaders, Function.update_of_ne hne, hg, hf,
        goneBack_of_ne hne]
  have hin : ∀ v ∈ s.frontReaders, g v = ⟨.waiting false, none⟩ := by
    intro v hv
    have hmem : v ∈ s.list := happend ▸ List.mem_append_left _ hv
    simp only [hg, if_pos hv, hf, hway.waiting hI hmem (hread v hv)]
  have hfin : ∀ v ∈ s.frontReaders, f v = ⟨.waiting false, some false⟩ := fun v hv =>
    hway.waiting hI (happend ▸ List.mem_append_left _ hv) (hread v hv)
  have hout : ∀ v ∉ s.frontReaders, g v = f v := fun v hv => if_neg hv
  have hself : s.task t = ⟨.readersOnly b, (s.task t).flags⟩ := by rw [← hpc]
  have hactive : Tally.tally active g =
      Tally.tally active s.task - 1 + s.frontReaders.length * 1 := by
    rw [Tally.tally_of_list (c := 1) hnodup.of_append_left
      (fun v hv => by rw [hin v hv, hfin v hv]; rfl)
      hout, hf, goneBack, Tally.tally_update, ← goneBack_self, (hway.not_has hI).1, hself]
    simp only [active]
    ring
  have hbias : Tally.tally bias g =
      Tally.tally bias s.task + s.frontReaders.length * (-1) := by
    rw [Tally.tally_of_list (c := -1) hnodup.of_append_left
      (fun v hv => by rw [hin v hv, hfin v hv]; rfl)
      hout, hf, goneBack, Tally.tally_update, ← goneBack_self, (hway.not_has hI).2, hself]
    cases b <;> simp [bias]
  have hnowrite : ∀ v, ¬ HasWrite (g v) := by
    intro v hv
    by_cases hmem : v ∈ s.frontReaders
    · rw [hin v hmem] at hv
      exact hv
    rw [hout v hmem] at hv
    rcases eq_or_ne v t with rfl | hne
    · have hzero := (hway.not_has hI).1
      rw [hv.active_eq] at hzero
      cases hzero
    · rw [hf, goneBack_of_ne hne] at hv
      exact (hI.exclusive v t hne hv).1 (hself ▸ trivial)
  refine Inv.of_unlocked (fun v => ?_) ?_ (fun v w _ hv => ?_) hnodup.of_append_right
    fun v hv => ?_
  · rw [htask]
    by_cases hmem : v ∈ s.frontReaders
    · rw [hin v hmem]
      exact id
    · rw [hout v hmem]
      exact hway.not_inLock hI v
  · rw [htask, hactive, hbias]
    change s.count + _ = _
    rw [hI.word]
    ring
  · rw [htask] at hv
    exact absurd hv (hnowrite v)
  · rw [htask]
    change v ∈ s.list.drop s.frontReaders.length at hv
    have hmem : v ∉ s.frontReaders := fun h => List.disjoint_of_nodup_append hnodup h hv
    rw [hout v hmem]
    exact hway.flags hI (happend ▸ List.mem_append_right _ hv)

/-- The one that has put itself into the queue changes `count`. -/
theorem Inv.queued (hI : s.Inv) {w : Bool} (hpc : (s.task t).pc = .queued w) {d : ℤ}
    (hd : d = if w then -1 else -rwsemWaitingBias - 1)
    (h : (if RwSemaphore.activePart (s.count + d) = 0 then some (s.add t d (.tryAgain (.waiting w)))
      else some ({ s with lock := none }.add t d (.waiting w))) = some s') : s'.Inv := by
  have hlock : InLock (s.task t).pc := hpc ▸ trivial
  obtain ⟨hmem, hflags⟩ := hI.flags_of_lock hlock (w := w) (by rw [hpc]; rfl)
  split at h <;> cases h
  · refine hI.add s.lock hpc ?_ (fun h => h.elim) (fun h => h.elim) (fun _ => hI.lock t hlock)
      (.inl rfl) (fun _ => rfl) (fun _ _ => hmem) nofun
    rw [hd]
    cases w <;> rfl
  · refine hI.add none hpc ?_ ?_ ?_ (fun h => h.elim) (.inr (.inl trivial)) (fun _ => rfl)
      (fun h => h.elim) nofun
    · rw [hd, hflags]
      cases w <;> rfl
    · rw [hflags]
      exact fun h => by cases w <;> exact h.elim
    · rw [hflags]
      exact fun h => by cases w <;> exact h.elim

/-- `try_again` keeps the invariant. -/
theorem Inv.tryAgain (hcard : Fintype.card T ≤ 32766) (hI : s.Inv)
    (hpc : (s.task t).pc = .tryAgain b)
    (h : s.tryAgain t b = some s') : s'.Inv := by
  have hlock : InLock (s.task t).pc := hpc ▸ trivial
  have hlisted : wants (.tryAgain b) ≠ none → t ∈ s.list := fun hne =>
    hI.listed t hlock (hpc ▸ hne)
  unfold RwSemaphore.tryAgain at h
  split at h
  · cases h
    exact hI.add s.lock hpc (by cases b <;> rfl) (fun h => h.elim) (fun h => h.elim)
      (fun _ => hI.lock t hlock) (.inl rfl) (fun _ => by cases b <;> rfl)
      (fun _ hne => hlisted (by cases b <;> exact hne)) nofun
  next hzero =>
    rw [not_not] at hzero
    split at h
    · cases h
    next u q hlist =>
      split at h
      next hu =>
        cases h
        exact hI.grantWriter hcard hpc hzero hlist hu
      next hu =>
        cases h
        have hread : (s.task u).flags = some false := by
          have hflags := (hI.flags u (hlist ▸ List.mem_cons_self)).1
          obtain ⟨w, hw⟩ := Option.ne_none_iff_exists'.1 hflags
          cases w with
          | false => exact hw
          | true => exact absurd hw hu
        have hidle := (hI.activePart hcard).symm.trans hzero
        exact hI.add s.lock hpc (by cases b <;> rfl) (fun h => h.elim)
          (fun _ => .inr fun v _ => (Inv.of_idle hidle v).2) (fun _ => hI.lock t hlock) (.inl rfl)
          (fun _ => by cases b <;> rfl) (fun _ hne => hlisted (by cases b <;> exact hne))
          fun _ _ => ⟨u, q, hlist, hread⟩

/-- `undo` keeps the invariant. -/
theorem Inv.undo (hI : s.Inv) (hpc : (s.task t).pc = .undo b) :
    (s.add t (-1) (.tryAgain b)).Inv ∧ ({ s with lock := none }.add t (-1) (back b)).Inv := by
  have hlock : InLock (s.task t).pc := hpc ▸ trivial
  refine ⟨hI.add s.lock hpc (by cases b <;> rfl) (fun h => h.elim) (fun h => h.elim)
    (fun _ => hI.lock t hlock) (.inl rfl) (fun _ => by cases b <;> rfl)
    (fun _ hne => hI.listed t hlock (by rw [hpc]; cases b <;> exact hne)) nofun, ?_⟩
  cases b with
  | out =>
    exact hI.add none hpc rfl (fun h => h.elim) (fun h => h.elim) (fun h => h.elim)
      (.inr (.inl trivial)) (fun _ => rfl) (fun h => h.elim) nofun
  | waiting w =>
    obtain ⟨-, hflags⟩ := hI.flags_of_lock hlock (w := w) (by rw [hpc]; rfl)
    refine hI.add none hpc ?_ ?_ ?_ (fun h => h.elim) (.inr (.inl trivial)) (fun _ => rfl)
      (fun h => h.elim) nofun
    · rw [hflags]
      cases w <;> rfl
    · rw [hflags]
      exact fun h => by cases w <;> exact h.elim
    · rw [hflags]
      exact fun h => by cases w <;> exact h.elim

/-- The steps inside the functions. -/
theorem Inv.step_next (hcard : Fintype.card T ≤ 32766) (hI : s.Inv)
    (hguard : s.NoDowngrade (.next t)) (h : s.next t = some s') : s'.Inv := by
  unfold next at h
  split at h <;> rename_i hpc
  · -- `rwsem_down_failed_common`
    simp only [Option.ite_none_right_eq_some, Option.some.injEq] at h
    obtain ⟨hlock, rfl⟩ := h
    exact hI.enter hpc hlock
  · exact hI.queued hpc rfl h
  · simp only [Option.ite_none_right_eq_some, Option.some.injEq] at h
    obtain ⟨hflags, rfl⟩ := h
    have hmem : t ∉ s.list := fun hmem => (hI.flags t hmem).1 hflags
    rw [goto_eq_add]
    split
    next hw =>
      subst hw
      exact hI.add s.lock hpc (by rw [hflags]; rfl) (fun _ => .inl (by rw [hflags]; trivial))
        (fun h => h.elim) (fun h => h.elim) (.inl rfl) (fun h => absurd h hmem)
        (fun h => h.elim) nofun
    next hw =>
      rw [Bool.not_eq_true] at hw
      subst hw
      exact hI.add s.lock hpc (by rw [hflags]; rfl) (fun h => h.elim)
        (fun _ => .inl (by rw [hflags]; trivial)) (fun h => h.elim) (.inl rfl)
        (fun h => absurd h hmem) (fun h => h.elim) nofun
  · simp only [Option.ite_none_right_eq_some] at h
    obtain ⟨hlock, h⟩ := h
    split at h <;> cases h <;> rw [goto_eq_add]
    · exact hI.call hpc rfl rfl id rfl (fun h => h.elim) fun h => h.elim
    · exact hI.add (some t) hpc rfl (fun h => h.elim) (fun h => h.elim) (fun _ => rfl)
        (.inr (.inr hlock)) (fun _ => rfl) (fun _ h => absurd rfl h) nofun
  · -- `rwsem_downgrade_wake`
    simp only [Option.ite_none_right_eq_some] at h
    obtain ⟨-, h⟩ := h
    have hreading : (s.goto t .reading).Inv := by
      rw [goto_eq_add]
      exact hI.call hpc rfl rfl id rfl (fun h => h.elim) fun _ => .inl trivial
    split at h
    · cases h
      exact hreading
    next u q hlist =>
      rw [if_pos (hguard t rfl hpc u q hlist)] at h
      cases h
      exact hreading
  · exact hI.tryAgain hcard hpc h
  · split at h <;> cases h
    · exact (hI.undo hpc).2
    · exact (hI.undo hpc).1
  · cases h
    exact hI.grantReaders hpc
  · cases h
  · cases h
  · cases h

/-- Every step keeps the invariant. -/
theorem Inv.step (hcard : Fintype.card T ≤ 32766) (hI : s.Inv) (hguard : s.NoDowngrade a)
    (h : s.step a = some s') : s'.Inv := by
  by_cases hnext : ∃ t, a = .next t
  · obtain ⟨t, rfl⟩ := hnext
    exact hI.step_next hcard hguard h
  · exact hI.step_call hcard (fun t ht => hnext ⟨t, ht⟩) h

/-! ### Runs -/

theorem inv_init : (machine T).init.Inv where
  word := by
    have hactive : Tally.tally active (machine T).init.task = 0 := Tally.tally_eq_zero fun _ => rfl
    have hbias : Tally.tally bias (machine T).init.task = 0 := Tally.tally_eq_zero fun _ => rfl
    rw [hactive, hbias]
    rfl
  exclusive _ _ _ h := h.elim
  lock _ h := h.elim
  nodup := List.nodup_nil
  flags := nofun
  listed _ h := h.elim
  front := nofun

theorem inv_of_run (hcard : Fintype.card T ≤ 32766) {as : List (RwsemAct T)}
    (hrun : (machine T).Run NoDowngrade (machine T).init as s) : s.Inv :=
  hrun.invariant (fun _ _ _ hI hg hst => hI.step hcard hg hst) inv_init

/-- **Exclusion.**  As long as no `__downgrade_write` finds a reader in front of the queue, nobody
has the semaphore together with a writer, and `count` does not leave the range of a `signed long`,
in whatever order the tasks take their steps. -/
theorem writer_alone (hcard : Fintype.card T ≤ 32766) {as : List (RwsemAct T)}
    (hrun : (machine T).Run NoDowngrade (machine T).init as s) :
    (∀ t u, t ≠ u → HasWrite (s.task t) → ¬ HasRead (s.task u) ∧ ¬ HasWrite (s.task u)) ∧
      -2 ^ 31 ≤ s.count ∧ s.count < 2 ^ 31 := by
  have hI := inv_of_run hcard hrun
  have hactive := Tally.tally_nonneg (f := s.task) active_nonneg
  have hbias := Tally.tally_nonneg (f := s.task) bias_nonneg
  have hle := tally_active_le hcard s.task
  have hle' := tally_bias_le hcard s.task
  have hword := hI.word
  rw [rwsemWaitingBias] at hword
  exact ⟨hI.exclusive, by omega, by omega⟩

/-- The function with which a task releases the semaphore. -/
def release (s : RwSemaphore T) (t : T) : RwsemAct T :=
  if (s.task t).pc = .writing then .upWrite t else .upRead t

/-- It waits in the loop, and has not been given the semaphore. -/
def Waits (s : RwSemaphore T) (t : T) : Prop :=
  ∃ w f, s.task t = ⟨.waiting w, some f⟩

omit [Fintype T] in
theorem add_task_self (s : RwSemaphore T) (t : T) (d : ℤ) (p : RwsemPc) :
    (s.add t d p).task t = ⟨p, (s.task t).flags⟩ := Function.update_self ..

omit [Fintype T] in
theorem add_task_of_ne (s : RwSemaphore T) (d : ℤ) (p : RwsemPc) (hne : u ≠ t) :
    (s.add t d p).task u = s.task u := Function.update_of_ne hne ..

/-- Without other active tasks the one that releases the semaphore goes out. -/
theorem release_eq (hcard : Fintype.card T ≤ 32766) (hI : s.Inv)
    (ht : (s.task t).pc = .reading ∨ (s.task t).pc = .writing)
    (hothers : ∀ u, u ≠ t → (s.task u).pc = .out ∨ s.Waits u) :
    ∃ d, s.step (s.release t) = some (s.add t d .out) ∧ (s.add t d .out).Inv ∧
      RwSemaphore.activePart (s.add t d .out).count = 0 := by
  have hidle : ∀ d, Tally.tally active (s.add t d .out).task = 0 := by
    intro d
    refine Tally.tally_eq_zero fun u => ?_
    rcases eq_or_ne u t with rfl | hne
    · rw [add_task_self]
      rfl
    rw [add_task_of_ne s d .out hne]
    rcases hothers u hne with hout | ⟨w, f, hwait⟩
    · rw [← eta (s.task u), hout]
      rfl
    · rw [hwait]
      rfl
  have hpart : ∀ d, (s.add t d .out).Inv → RwSemaphore.activePart (s.count + d) = 0 :=
    fun d h => (h.activePart hcard).trans (hidle d)
  rcases ht with hpc | hpc
  · have hadd : (s.add t (-1) .out).Inv :=
      hI.call hpc rfl rfl id rfl (fun h => h.elim) fun h => h.elim
    have hzero : RwSemaphore.activePart (s.count - 1) = 0 := hpart (-1) hadd
    refine ⟨-1, ?_, hadd, hpart _ hadd⟩
    simp only [release, hpc, reduceCtorEq, if_false, step, if_true, released, hzero, ite_self]
  · have hadd : (s.add t (rwsemWaitingBias - 1) .out).Inv :=
      hI.call hpc rfl rfl id rfl (fun h => h.elim) fun h => h.elim
    refine ⟨_, ?_, hadd, hpart _ hadd⟩
    simp only [release, hpc, if_true, step, released, hpart _ hadd, ite_self]

/-- Whether a step is not in `rwsem_downgrade_wake`. -/
def noDowngrade (s : RwSemaphore T) : RwsemAct T → Bool
  | .next t => (s.task t).pc ≠ .downgradeWakes
  | _ => true

omit [DecidableEq T] [Fintype T] in
theorem noDowngrade_of_eq_true (s : RwSemaphore T) (a : RwsemAct T) (h : noDowngrade s a = true) :
    s.NoDowngrade a := by
  rintro t rfl hpc
  exact absurd hpc (of_decide_eq_true h)

/-- A reader has the semaphore, and a writer waits for it. -/
def writerWaits : List (RwsemAct (Fin 2)) := [.downRead 0, .downWrite 1, .next 1, .next 1]

theorem run_writerWaits {s : RwSemaphore (Fin 2)}
    (h : (machine (Fin 2)).exec (machine (Fin 2)).init writerWaits = some s) :
    (machine (Fin 2)).Run NoDowngrade (machine (Fin 2)).init writerWaits s :=
  Machine.run_of_check noDowngrade_of_eq_true h (by decide)

theorem writer_alone_writerWaits :
    ∃ s : RwSemaphore (Fin 2),
      (machine (Fin 2)).exec (machine (Fin 2)).init writerWaits = some s ∧
      (∀ t u, t ≠ u → HasWrite (s.task t) → ¬ HasRead (s.task u) ∧ ¬ HasWrite (s.task u)) ∧
      -2 ^ 31 ≤ s.count ∧ s.count < 2 ^ 31 := by
  have hrun := Option.eq_some_of_isSome
    (o := (machine (Fin 2)).exec (machine (Fin 2)).init writerWaits) rfl
  exact ⟨_, hrun, writer_alone (by decide) (run_writerWaits hrun)⟩

end RwSemaphore

end LxApi32
