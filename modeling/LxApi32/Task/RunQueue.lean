import LxApi32.Lib.Machine
import LxApi32.Lib.Places
import LxApi32.Lib.Tally
import Mathlib.Data.Fintype.Basic

/-!
# The run queue

The tasks that can run are in one of two arrays of queues, one queue for each priority, with a bit
for each queue that is not empty.  `schedule` takes the first task of the first queue of the active
array, and when that is empty the arrays change places.  A task that has used up its time goes to
the expired array, one that goes to sleep is taken out, and who wakes it puts it into the active
array.

The averages behind `effective_prio` are not followed: the bonus that they give is a part of the
action.  There is one processor, so that `load_balance` finds nothing.

* `RunQueue.consistent` : the bits and the counters are those of the queues.
* `RunQueue.schedule_picks` : `schedule` finds a task with the best priority, or none can run.

Both need that a task is in the run queue when it goes to sleep, for `deactivate_task` counts it
down in `nr_running` in any case.
-/

namespace LxApi32

/-- `policy` -/
inductive SchedPolicy
  | normal
  | fifo
  | rr
  deriving DecidableEq, Repr

/-- A `struct task_struct` for the scheduler. -/
structure RqTask where
  /-- `state`, with a bit for each `TASK_` other than `TASK_RUNNING` -/
  state : ℕ
  /-- `prio` -/
  prio : ℕ
  /-- `static_prio` -/
  staticPrio : ℕ
  /-- `policy` -/
  policy : SchedPolicy
  /-- `time_slice` -/
  timeSlice : BitVec 32
  /-- `activated` -/
  activated : ℤ
  /-- `array`: an index of `arrays`, or `NULL`. -/
  array : Option Bool
  deriving DecidableEq, Repr

/-- A `struct runqueue` with the tasks. -/
structure RunQueue (T : Type*) where
  /-- `nr_running` -/
  nrRunning : ℤ
  /-- `expired_timestamp` -/
  expiredTimestamp : BitVec 32
  /-- `curr` -/
  curr : T
  /-- `idle` -/
  idle : T
  /-- `active`: the other one of `arrays` is `expired`. -/
  active : Bool
  /-- `best_expired_prio` -/
  bestExpiredPrio : ℕ
  /-- `arrays[a].nr_active` -/
  nrActive : Bool → ℤ
  /-- Bit `k` of `arrays[a].bitmap`. -/
  bitmap : Bool × ℕ → Bool
  /-- `arrays[a].queue[k]` -/
  queue : Bool × ℕ → List T
  /-- The tasks. -/
  task : T → RqTask

/-- What happens. -/
inductive RqAct (T : Type*)
  /-- A task sets its `state`. -/
  | setState (t : T) (state : ℕ)
  /-- `try_to_wake_up` for these states -/
  | wake (t : T) (states : ℕ) (sync inInterrupt : Bool) (bonus : ℤ)
  /-- `wake_up_forked_process` by the task `c` -/
  | fork (c t : T) (bonus : ℤ)
  /-- `schedule`, with a pending signal or without -/
  | schedule (t : T) (signal : Bool) (bonus : ℤ)
  /-- `scheduler_tick` in the task `c` -/
  | schedulerTick (c : T) (bonus : ℤ) (jiffies : BitVec 32)
  /-- `set_user_nice` -/
  | setUserNice (t : T) (nice : ℤ)
  /-- `setscheduler`, behind its checks -/
  | setscheduler (t : T) (policy : SchedPolicy) (prio : Fin 100)
  /-- `sys_sched_yield`, before its `schedule` -/
  | schedYield (t : T)
  /-- `init_idle` -/
  | initIdle
  deriving DecidableEq, Repr

namespace RqTask

/-- `MAX_RT_PRIO` -/
def maxRtPrio : ℕ := 100

/-- `MAX_PRIO` -/
def maxPrio : ℕ := 140

/-- `MAX_BONUS` -/
def maxBonus : ℤ := 10

/-- `MIN_TIMESLICE` -/
def minTimeslice : ℕ := 3

/-- `MAX_TIMESLICE` -/
def maxTimeslice : ℕ := 62

/-- `MAX_SLEEP_AVG`, which is `STARVATION_LIMIT` as well -/
def maxSleepAvg : ℕ := 310

/-- `rt_task` -/
def rtTask (p : RqTask) : Prop := p.prio < maxRtPrio

instance (p : RqTask) : Decidable p.rtTask := inferInstanceAs (Decidable (p.prio < maxRtPrio))

/-- `effective_prio`, with `CURRENT_BONUS` -/
def effectivePrio (p : RqTask) (bonus : ℤ) : ℕ :=
  if p.rtTask then p.prio
  else (min (max (p.staticPrio - (bonus - maxBonus / 2)) maxRtPrio) (maxPrio - 1 : ℤ)).toNat

/-- `task_timeslice` -/
def taskTimeslice (p : RqTask) : BitVec 32 :=
  BitVec.ofNat 32
    (minTimeslice + (maxTimeslice - minTimeslice) * (maxPrio - 1 - p.staticPrio) / 39)

/-- `TASK_NICE` -/
def taskNice (p : RqTask) : ℤ := p.staticPrio - maxRtPrio - 20

/-- `TASK_INTERACTIVE`, with `DELTA` -/
def taskInteractive (p : RqTask) : Prop :=
  (p.prio : ℤ) ≤ p.staticPrio - (Int.tdiv (p.taskNice * maxBonus) 40 + 2)

instance (p : RqTask) : Decidable p.taskInteractive :=
  inferInstanceAs (Decidable ((p.prio : ℤ) ≤ _))

/-- `TIMESLICE_GRANULARITY`, with `CURRENT_BONUS` -/
def timesliceGranularity (bonus : ℤ) : BitVec 32 :=
  let k := if maxBonus - bonus = 0 then 1 else maxBonus - bonus
  BitVec.ofNat 32 (minTimeslice * 2 ^ (k - 1).toNat)

/-- It is a priority of the arrays. -/
theorem effectivePrio_lt (p : RqTask) (bonus : ℤ) : p.effectivePrio bonus < maxPrio := by
  unfold effectivePrio
  split
  next h =>
    unfold rtTask at h
    exact h.trans (by decide)
  next => simp only [maxRtPrio, maxPrio]; omega

/-- Where a task is queued. -/
def place (p : RqTask) : Option (Bool × ℕ) := p.array.map fun a => (a, p.prio)

end RqTask

namespace RunQueue

open RqTask (maxRtPrio maxPrio maxSleepAvg)
open Places (Linked)

variable {T : Type*} [DecidableEq T]

/-- A task changes. -/
def setTask (s : RunQueue T) (t : T) (x : RqTask) : RunQueue T :=
  { s with task := Function.update s.task t x }

/-- `dequeue_task` -/
def dequeueTask (s : RunQueue T) (t : T) : Option Bool → RunQueue T
  | none => s
  | some a =>
    let p := (a, (s.task t).prio)
    let queue := fun q => (s.queue q).erase t
    { s with
      nrActive := Function.update s.nrActive a (s.nrActive a - 1)
      queue := queue
      bitmap := if queue p = [] then Function.update s.bitmap p false else s.bitmap }

/-- `enqueue_task` -/
def enqueueTask (s : RunQueue T) (t : T) (a : Bool) : RunQueue T :=
  let p := (a, (s.task t).prio)
  { s with
    queue := Function.update s.queue p (s.queue p ++ [t])
    bitmap := Function.update s.bitmap p true
    nrActive := Function.update s.nrActive a (s.nrActive a + 1) }.setTask t
      { s.task t with array := some a }

/-- `__activate_task` -/
def rawActivateTask (s : RunQueue T) (t : T) : RunQueue T :=
  let s := s.enqueueTask t s.active
  { s with nrRunning := s.nrRunning + 1 }

/-- `p->prio = effective_prio(p)`, as at the end of `recalc_task_prio` -/
def setEffectivePrio (s : RunQueue T) (t : T) (bonus : ℤ) : RunQueue T :=
  s.setTask t { s.task t with prio := (s.task t).effectivePrio bonus }

/-- `activate_task` -/
def activateTask (s : RunQueue T) (t : T) (inInterrupt : Bool) (bonus : ℤ) : RunQueue T :=
  let s := s.setEffectivePrio t bonus
  let activated := if (s.task t).activated ≠ 0 then (s.task t).activated
    else if inInterrupt then 2 else 1
  (s.setTask t { s.task t with activated := activated }).rawActivateTask t

/-- `deactivate_task` -/
def deactivateTask (s : RunQueue T) (t : T) : RunQueue T :=
  let s := { s with nrRunning := s.nrRunning - 1 }.dequeueTask t (s.task t).array
  s.setTask t { s.task t with array := none }

/-- `try_to_wake_up` -/
def tryToWakeUp (s : RunQueue T) (t : T) (states : ℕ) (sync inInterrupt : Bool) (bonus : ℤ) :
    RunQueue T :=
  if (s.task t).state &&& states = 0 then s
  else
    let s :=
      if (s.task t).array ≠ none then s
      else
        let s := if (s.task t).state = 2 then s.setTask t { s.task t with activated := -1 } else s
        if sync then s.rawActivateTask t else s.activateTask t inInterrupt bonus
    s.setTask t { s.task t with state := 0 }

/-- A task is put before another one in its queue: `list_add_tail` with the other one's entry. -/
def insertBefore (c t : T) (l : List T) : List T :=
  l.takeWhile (· ≠ c) ++ t :: l.dropWhile (· ≠ c)

/-- `wake_up_forked_process` -/
def wakeUpForkedProcess (s : RunQueue T) (c t : T) (bonus : ℤ) : RunQueue T :=
  let s := s.setEffectivePrio t bonus
  match (s.task c).array with
  | none => s.rawActivateTask t
  | some a =>
    let p := (a, (s.task c).prio)
    { s with
      queue := Function.update s.queue p (insertBefore c t (s.queue p))
      nrActive := Function.update s.nrActive a (s.nrActive a + 1)
      nrRunning := s.nrRunning + 1 }.setTask t
        { s.task t with prio := (s.task c).prio, array := some a }

/-- The beginning of `schedule`: a task that does not run any more is taken out. -/
def deschedule (s : RunQueue T) (t : T) (signal : Bool) : RunQueue T :=
  if (s.task t).state = 0 then s
  else if (s.task t).state &&& 1 ≠ 0 ∧ signal then s.setTask t { s.task t with state := 0 }
  else s.deactivateTask t

/-- The active array and the expired one change places when nobody is in the active one. -/
def switchArrays (s : RunQueue T) : RunQueue T :=
  if s.nrActive s.active = 0 then
    { s with active := !s.active, expiredTimestamp := 0, bestExpiredPrio := maxPrio }
  else s

/-- `next` gets a new priority after its first wait in the queue. -/
def creditNext (s : RunQueue T) (t : T) (bonus : ℤ) : RunQueue T :=
  if ¬ (s.task t).rtTask ∧ 0 < (s.task t).activated then
    match (s.task t).array with
    | none => s
    | some a => ((s.dequeueTask t (some a)).setEffectivePrio t bonus).enqueueTask t a
  else s

/-- `sched_find_first_bit` and the first task of the queue. -/
def first (s : RunQueue T) : Option T :=
  match (List.range maxPrio).find? fun k => s.bitmap (s.active, k) with
  | none => none
  | some k => (s.queue (s.active, k)).head?

/-- `schedule`, up to the switch to `next` -/
def schedule (s : RunQueue T) (t : T) (signal : Bool) (bonus : ℤ) : Option (RunQueue T) :=
  let s := s.deschedule t signal
  if s.nrRunning = 0 then some { s with expiredTimestamp := 0, curr := s.idle }
  else
    let s := s.switchArrays
    match s.first with
    | none => none
    | some u =>
      let s := s.creditNext u bonus
      some { s.setTask u { s.task u with activated := 0 } with curr := u }

/-- `EXPIRED_STARVING` -/
def expiredStarving (s : RunQueue T) (jiffies : BitVec 32) : Prop :=
  s.expiredTimestamp ≠ 0 ∧
      BitVec.ofInt 32 (maxSleepAvg * s.nrRunning + 1) ≤ jiffies - s.expiredTimestamp ∨
    s.bestExpiredPrio < (s.task s.curr).staticPrio

instance (s : RunQueue T) (jiffies : BitVec 32) : Decidable (s.expiredStarving jiffies) :=
  inferInstanceAs (Decidable (_ ∧ _ ∨ _))

/-- A task whose time slice is over is taken out and gets a new one. -/
def refill (s : RunQueue T) (c : T) (bonus : ℤ) (jiffies : BitVec 32) : RunQueue T :=
  let s := (s.dequeueTask c (some s.active)).setEffectivePrio c bonus
  { s.setTask c { s.task c with timeSlice := (s.task c).taskTimeslice } with
    expiredTimestamp := if s.expiredTimestamp = 0 then jiffies else s.expiredTimestamp }

/-- It goes to the expired array, or back to the active one. -/
def expire (s : RunQueue T) (c : T) (bonus : ℤ) (jiffies : BitVec 32) : RunQueue T :=
  let s := s.refill c bonus jiffies
  if ¬ (s.task c).taskInteractive ∨ s.expiredStarving jiffies then
    let s := s.enqueueTask c !s.active
    if (s.task c).staticPrio < s.bestExpiredPrio then
      { s with bestExpiredPrio := (s.task c).staticPrio }
    else s
  else s.enqueueTask c s.active

/-- `scheduler_tick` -/
def schedulerTick (s : RunQueue T) (c : T) (bonus : ℤ) (jiffies : BitVec 32) : RunQueue T :=
  if c = s.idle ∨ (s.task c).array ≠ some s.active then s
  else
    let left := (s.task c).timeSlice - 1
    if (s.task c).rtTask then
      if (s.task c).policy = .rr then
        if left = 0 then
          let s := s.setTask c { s.task c with timeSlice := (s.task c).taskTimeslice }
          (s.dequeueTask c (some s.active)).enqueueTask c s.active
        else s.setTask c { s.task c with timeSlice := left }
      else s
    else
      let s := s.setTask c { s.task c with timeSlice := left }
      if left = 0 then s.expire c bonus jiffies
      else if (s.task c).taskInteractive ∧
          ((s.task c).taskTimeslice - left) % RqTask.timesliceGranularity bonus = 0 ∧
          RqTask.timesliceGranularity bonus ≤ left then
        ((s.dequeueTask c (some s.active)).setEffectivePrio c bonus).enqueueTask c s.active
      else s

/-- `enqueue_task`, if the task was in an array. -/
def requeue (s : RunQueue T) (t : T) : Option Bool → RunQueue T
  | none => s
  | some a => s.enqueueTask t a

/-- `set_user_nice` -/
def setUserNice (s : RunQueue T) (t : T) (nice : ℤ) : RunQueue T :=
  if (s.task t).taskNice = nice ∨ nice < -20 ∨ 19 < nice then s
  else
    let prio := (maxRtPrio + nice + 20).toNat
    if (s.task t).rtTask then s.setTask t { s.task t with staticPrio := prio }
    else
      let s' := s.dequeueTask t (s.task t).array
      (s'.setTask t { s.task t with staticPrio := prio, prio := prio }).requeue t (s.task t).array

/-- `__setscheduler` -/
def rawSetscheduler (s : RunQueue T) (t : T) (policy : SchedPolicy) (prio : Fin 100) :
    RunQueue T :=
  let k := if policy ≠ .normal then 99 - prio.val else (s.task t).staticPrio
  s.setTask t { s.task t with policy := policy, prio := k }

/-- `setscheduler` -/
def setscheduler (s : RunQueue T) (t : T) (policy : SchedPolicy) (prio : Fin 100) : RunQueue T :=
  if (s.task t).array = none then s.rawSetscheduler t policy prio
  else ((s.deactivateTask t).rawSetscheduler t policy prio).rawActivateTask t

/-- `sys_sched_yield` -/
def schedYield (s : RunQueue T) (t : T) : Option (RunQueue T) :=
  if ¬ (s.task t).rtTask then
    some ((s.dequeueTask t (s.task t).array).enqueueTask t !s.active)
  else
    match (s.task t).array with
    | none => none
    | some a =>
      let queue := fun q => (s.queue q).erase t
      let p := (a, (s.task t).prio)
      some { s with queue := Function.update queue p (queue p ++ [t]) }

/-- `init_idle` -/
def initIdle (s : RunQueue T) : RunQueue T :=
  let s := { s with curr := s.idle }.deactivateTask s.idle
  s.setTask s.idle { s.task s.idle with array := none, prio := maxPrio, state := 0 }

/-- The step function. -/
def step (s : RunQueue T) : RqAct T → Option (RunQueue T)
  | .setState t state => some (s.setTask t { s.task t with state := state })
  | .wake t states sync inInterrupt bonus => some (s.tryToWakeUp t states sync inInterrupt bonus)
  | .fork c t bonus => some (s.wakeUpForkedProcess c t bonus)
  | .schedule t signal bonus => s.schedule t signal bonus
  | .schedulerTick c bonus jiffies => some (s.schedulerTick c bonus jiffies)
  | .setUserNice t nice => some (s.setUserNice t nice)
  | .setscheduler t policy prio => some (s.setscheduler t policy prio)
  | .schedYield t => s.schedYield t
  | .initIdle => some s.initIdle

/-- `sched_init` up to its `wake_up_forked_process`, by the task that will be the idle one. -/
def machine (idle : T) : Machine (RunQueue T) (RqAct T) where
  init :=
    { nrRunning := 0, expiredTimestamp := 0, curr := idle, idle := idle, active := false
      bestExpiredPrio := maxPrio, nrActive := fun _ => 0, bitmap := fun _ => false
      queue := fun _ => [], task := fun _ => ⟨0, 120, 120, .normal, 0, 0, none⟩ }
  step := step

/-- The caller is in the run queue if the function takes it out, and a new task is not. -/
def Queued (s : RunQueue T) : RqAct T → Prop
  | .setState t state => t = s.idle → state = 0
  | .fork _ t _ => (s.task t).array = none
  | .schedule t _ _ => (s.task t).state ≠ 0 → (s.task t).array ≠ none
  | .schedYield t => (s.task t).array ≠ none
  | .initIdle => (s.task s.idle).array ≠ none
  | _ => True

instance (s : RunQueue T) : DecidablePred s.Queued
  | .setState .. => inferInstanceAs (Decidable (_ = _ → _ = _))
  | .fork .. => inferInstanceAs (Decidable (_ = _))
  | .schedule .. => inferInstanceAs (Decidable (_ ≠ _ → _ ≠ _))
  | .schedYield _ => inferInstanceAs (Decidable (_ ≠ _))
  | .initIdle => inferInstanceAs (Decidable (_ ≠ _))
  | .wake .. | .schedulerTick .. | .setUserNice .. | .setscheduler .. =>
    inferInstanceAs (Decidable True)

/-! ### The queues -/

variable {s s' s₁ : RunQueue T} {t u : T} {a b : Bool} {x : RqTask} {p : Bool × ℕ}
  {pos : T → Option (Bool × ℕ)}

/-- A place in an array. -/
def inArray (a : Bool) : Option (Bool × ℕ) → ℤ
  | some p => if p.1 = a then 1 else 0
  | none => 0

/-- A place in any array. -/
def inQueue : Option (Bool × ℕ) → ℤ
  | some _ => 1
  | none => 0

theorem inArray_nonneg (a : Bool) (o : Option (Bool × ℕ)) : 0 ≤ inArray a o := by
  cases o with
  | none => rfl
  | some p =>
    simp only [inArray]
    split <;> decide

theorem inQueue_nonneg (o : Option (Bool × ℕ)) : 0 ≤ inQueue o := by
  cases o with
  | none => exact le_refl 0
  | some p => exact zero_le_one

/-- Where the tasks are. -/
def place (s : RunQueue T) (t : T) : Option (Bool × ℕ) := (s.task t).place

/-- The queues, the bits and the counters agree with the places. -/
structure Queues [Fintype T] (pos : T → Option (Bool × ℕ)) (s : RunQueue T) : Prop where
  linked : Linked pos s.queue
  bitmap : ∀ p, s.bitmap p = true ↔ s.queue p ≠ []
  nrActive : ∀ a, s.nrActive a = Tally.tally (inArray a) pos

variable [Fintype T]

/-- What `dequeue_task` leaves. -/
theorem Queues.dequeue (h : Queues pos s) (ht : pos t = some (a, (s.task t).prio)) :
    Queues (Function.update pos t none) (s.dequeueTask t (some a)) := by
  set p := (a, (s.task t).prio) with hp
  have hmem : t ∈ s.queue p := (h.linked.mem_iff p t).2 ht
  have hother : ∀ q, q ≠ p → (s.queue q).erase t = s.queue q := fun q hq => by
    refine List.erase_of_not_mem fun hin => hq ?_
    rw [h.linked.mem_iff, ht] at hin
    exact (Option.some.inj hin).symm
  refine ⟨h.linked.erase t, fun q => ?_, fun c => ?_⟩
  · change (if (s.queue p).erase t = [] then Function.update s.bitmap p false else s.bitmap) q =
      true ↔ (s.queue q).erase t ≠ []
    rcases eq_or_ne q p with rfl | hq
    · split
      next hnil => simp [hnil]
      next hcons => exact iff_of_true ((h.bitmap p).2 (List.ne_nil_of_mem hmem)) hcons
    · rw [hother q hq, ← h.bitmap q]
      split
      · rw [Function.update_of_ne hq]
      · rfl
  · change Function.update s.nrActive a (s.nrActive a - 1) c = _
    rw [Tally.tally_update, ht]
    rcases eq_or_ne c a with rfl | hc
    · rw [Function.update_self, h.nrActive]
      simp [inArray, hp]
    · rw [Function.update_of_ne hc, h.nrActive]
      simp [inArray, hp, Ne.symm hc]

/-- What `enqueue_task` leaves. -/
theorem Queues.enqueue (h : Queues pos s) (ht : pos t = none) (a : Bool) :
    Queues (Function.update pos t (some (a, (s.task t).prio))) (s.enqueueTask t a) := by
  set p := (a, (s.task t).prio) with hp
  refine ⟨h.linked.push ht p, fun q => ?_, fun c => ?_⟩
  · change Function.update s.bitmap p true q = true ↔
      Function.update s.queue p (s.queue p ++ [t]) q ≠ []
    rcases eq_or_ne q p with rfl | hq
    · simp
    · rw [Function.update_of_ne hq, Function.update_of_ne hq, h.bitmap]
  · change Function.update s.nrActive a (s.nrActive a + 1) c = _
    rw [Tally.tally_update, ht]
    rcases eq_or_ne c a with rfl | hc
    · rw [Function.update_self, h.nrActive]
      simp [inArray, hp]
    · rw [Function.update_of_ne hc, h.nrActive]
      simp [inArray, hp, Ne.symm hc]

/-! ### The invariant -/

/-- The run queue agrees with what the tasks say. -/
structure Inv (s : RunQueue T) : Prop where
  queues : Queues s.place s
  nrRunning : s.nrRunning = Tally.tally inQueue s.place
  prio : ∀ t, (s.task t).prio < maxPrio ∨
    t = s.idle ∧ (s.task t).state = 0 ∧ (s.task t).array = none
  staticPrio : ∀ t, (s.task t).staticPrio < maxPrio

/-- The same queues and counters. -/
structure Same (s s' : RunQueue T) : Prop where
  queue : s'.queue = s.queue
  bitmap : s'.bitmap = s.bitmap
  nrActive : s'.nrActive = s.nrActive
  nrRunning : s'.nrRunning = s.nrRunning
  idle : s'.idle = s.idle

omit [DecidableEq T] in
theorem Queues.congr (h : Queues pos s) (hsame : Same s s') : Queues pos s' := by
  refine ⟨hsame.queue ▸ h.linked, fun p => ?_, fun a => ?_⟩
  · rw [hsame.bitmap, hsame.queue]
    exact h.bitmap p
  · rw [hsame.nrActive]
    exact h.nrActive a

omit [Fintype T] in
theorem place_of_update (h : s'.task = Function.update s.task t x) :
    s'.place = Function.update s.place t x.place := by
  funext u
  rw [place, h]
  rcases eq_or_ne u t with rfl | hne
  · rw [Function.update_self, Function.update_self]
  · rw [Function.update_of_ne hne, Function.update_of_ne hne, place]

/-- **One task moves.** -/
theorem Inv.move (hI : s.Inv) (htask : s'.task = Function.update s.task t x)
    (hqueues : Queues (Function.update s.place t x.place) s')
    (hrun : s'.nrRunning = s.nrRunning - inQueue (s.place t) + inQueue x.place)
    (hidle : s'.idle = s.idle)
    (hprio : x.prio < maxPrio ∨ t = s.idle ∧ x.state = 0 ∧ x.array = none)
    (hstatic : x.staticPrio < maxPrio) : s'.Inv := by
  have hplace := place_of_update htask
  refine ⟨hplace ▸ hqueues, ?_, fun u => ?_, fun u => ?_⟩
  · rw [hrun, hI.nrRunning, hplace, Tally.tally_update]
  · rw [htask, hidle]
    rcases eq_or_ne u t with rfl | hne
    · rw [Function.update_self]
      exact hprio
    · rw [Function.update_of_ne hne]
      exact hI.prio u
  · rw [htask]
    rcases eq_or_ne u t with rfl | hne
    · rw [Function.update_self]
      exact hstatic
    · rw [Function.update_of_ne hne]
      exact hI.staticPrio u

/-- A task changes and stays where it is. -/
theorem Inv.set (hI : s.Inv) (hsame : Same s s') (htask : s'.task = Function.update s.task t x)
    (hplace : x.place = s.place t)
    (hprio : x.prio < maxPrio ∨ t = s.idle ∧ x.state = 0 ∧ x.array = none)
    (hstatic : x.staticPrio < maxPrio) : s'.Inv := by
  refine hI.move htask ?_ ?_ hsame.idle hprio hstatic
  · rw [hplace, Function.update_eq_self]
    exact hI.queues.congr hsame
  · rw [hsame.nrRunning, hplace]
    ring

omit [DecidableEq T] in
/-- No task changes. -/
theorem Inv.congr (hI : s.Inv) (hsame : Same s s') (htask : s'.task = s.task) : s'.Inv := by
  have hplace : s'.place = s.place := by
    funext u
    rw [place, htask, place]
  refine ⟨hplace ▸ hI.queues.congr hsame, ?_, fun u => ?_, fun u => ?_⟩
  · rw [hsame.nrRunning, hplace]
    exact hI.nrRunning
  · rw [htask, hsame.idle]
    exact hI.prio u
  · rw [htask]
    exact hI.staticPrio u

omit [DecidableEq T] [Fintype T] in
theorem place_of_array (h : (s.task t).array = some a) :
    s.place t = some (a, (s.task t).prio) := by
  rw [place, RqTask.place, h]
  rfl

omit [DecidableEq T] [Fintype T] in
theorem place_eq_none (h : (s.task t).array = none) : s.place t = none := by
  rw [place, RqTask.place, h]
  rfl

/-- **Into the active array.** -/
theorem Inv.activate (hI : s.Inv) (ht : (s.task t).array = none) (hsame : Same s s₁)
    (htask : s₁.task = Function.update s.task t x) (hprio : x.prio < maxPrio)
    (hstatic : x.staticPrio < maxPrio) : (s₁.rawActivateTask t).Inv := by
  have hnone := place_eq_none ht
  have hx : s₁.task t = x := by rw [htask, Function.update_self]
  have hqueues := (hI.queues.congr hsame).enqueue hnone s₁.active
  refine hI.move (t := t) (x := { x with array := some s₁.active }) ?_ ?_ ?_ hsame.idle
    (.inl hprio) hstatic
  · change Function.update s₁.task t { s₁.task t with array := some s₁.active } = _
    rw [hx, htask, Function.update_idem]
  · rw [hx] at hqueues
    exact ⟨hqueues.linked, hqueues.bitmap, hqueues.nrActive⟩
  · change s₁.nrRunning + 1 = _
    rw [hsame.nrRunning, hnone]
    simp [RqTask.place, inQueue]

/-- **Out of its array**, and into one again. -/
theorem Inv.requeue (hI : s.Inv) (s₁ : RunQueue T) (ht : (s.task t).array = some a)
    (hsame : Same (s.dequeueTask t (some a)) s₁) (htask : s₁.task = Function.update s.task t x)
    (hprio : x.prio < maxPrio) (hstatic : x.staticPrio < maxPrio) (b : Bool) :
    (s₁.enqueueTask t b).Inv := by
  have hplace := place_of_array ht
  have hx : s₁.task t = x := by rw [htask, Function.update_self]
  have hqueues := ((hI.queues.dequeue hplace).congr hsame).enqueue (Function.update_self ..) b
  refine hI.move (t := t) (x := { x with array := some b }) ?_ ?_ ?_ hsame.idle (.inl hprio) hstatic
  · change Function.update s₁.task t { s₁.task t with array := some b } = _
    rw [hx, htask, Function.update_idem]
  · rw [hx, Function.update_idem] at hqueues
    exact hqueues
  · change s₁.nrRunning = _
    rw [hsame.nrRunning, hplace]
    change s.nrRunning = s.nrRunning - 1 + 1
    ring

/-- `deactivate_task` of a task in the run queue. -/
theorem Inv.deactivate (hI : s.Inv) (ht : (s.task t).array = some a) :
    (s.deactivateTask t).Inv := by
  have hplace := place_of_array ht
  have hqueues := hI.queues.dequeue hplace
  refine hI.move (t := t) (x := { s.task t with array := none }) ?_ ?_ ?_ ?_ ?_ (hI.staticPrio t)
  · rw [deactivateTask, ht]
    rfl
  · rw [deactivateTask, ht]
    exact ⟨hqueues.linked, hqueues.bitmap, hqueues.nrActive⟩
  · rw [deactivateTask, ht, hplace]
    change s.nrRunning - 1 = s.nrRunning - 1 + 0
    ring
  · rw [deactivateTask, ht]
    rfl
  · rcases hI.prio t with h | ⟨-, -, hnone⟩
    · exact .inl h
    · cases ht.symm.trans hnone

/-! ### The functions -/

omit [DecidableEq T] [Fintype T] in
theorem same_refl (s : RunQueue T) : Same s s := ⟨rfl, rfl, rfl, rfl, rfl⟩

omit [DecidableEq T] [Fintype T] in
/-- Who runs or is in the run queue has a priority of the arrays. -/
theorem prio_lt (h : (s.task t).prio < maxPrio ∨
    t = s.idle ∧ (s.task t).state = 0 ∧ (s.task t).array = none)
    (hne : (s.task t).state ≠ 0 ∨ (s.task t).array ≠ none) : (s.task t).prio < maxPrio := by
  rcases h with h | ⟨-, hstate, harray⟩
  · exact h
  · exact absurd hne (by simp [hstate, harray])

/-- `activate_task` -/
theorem Inv.activateTask (hI : s.Inv) (ht : (s.task t).array = none) (i : Bool) (bonus : ℤ) :
    (s.activateTask t i bonus).Inv := by
  rw [RunQueue.activateTask]
  refine hI.activate ht ⟨rfl, rfl, rfl, rfl, rfl⟩ (x := ?_) ?_ ?_ ?_
  rotate_left
  · simp only [setTask, setEffectivePrio, Function.update_idem, Function.update_self]
    rfl
  · exact RqTask.effectivePrio_lt _ _
  · exact hI.staticPrio t

/-- `try_to_wake_up` -/
theorem Inv.tryToWakeUp (hI : s.Inv) (t : T) (states : ℕ) (sync i : Bool) (bonus : ℤ) :
    (s.tryToWakeUp t states sync i bonus).Inv := by
  unfold RunQueue.tryToWakeUp
  split
  · exact hI
  next hstate =>
    have hne : (s.task t).state ≠ 0 := fun hzero => hstate (by rw [hzero, Nat.zero_and])
    -- the task is in the run queue then
    have hqueued : (if (s.task t).array ≠ none then s
        else
          let s := if (s.task t).state = 2 then s.setTask t { s.task t with activated := -1 } else s
          if sync then s.rawActivateTask t else s.activateTask t i bonus).Inv := by
      split
      · exact hI
      next harray =>
        rw [not_not] at harray
        set s₁ := if (s.task t).state = 2 then s.setTask t { s.task t with activated := -1 } else s
          with hs₁
        have hI₁ : s₁.Inv := by
          rw [hs₁]
          split
          · exact hI.set (t := t) ⟨rfl, rfl, rfl, rfl, rfl⟩ rfl rfl (hI.prio t) (hI.staticPrio t)
          · exact hI
        have hsame : (s₁.task t).state = (s.task t).state ∧ (s₁.task t).array = none := by
          rw [hs₁]
          split
          · simp [setTask, harray]
          · exact ⟨rfl, harray⟩
        dsimp only
        split
        · exact hI₁.activate hsame.2 (same_refl s₁) (Function.update_eq_self ..).symm
            (prio_lt (hI₁.prio t) (.inl (hsame.1 ▸ hne))) (hI₁.staticPrio t)
        · exact hI₁.activateTask hsame.2 i bonus
    refine hqueued.set (t := t) ⟨rfl, rfl, rfl, rfl, rfl⟩ rfl rfl ?_ (hqueued.staticPrio t)
    exact (hqueued.prio t).imp id fun h => ⟨h.1, rfl, h.2.2⟩

omit [Fintype T] in
theorem mem_insertBefore {c : T} {l : List T} : u ∈ insertBefore c t l ↔ u = t ∨ u ∈ l := by
  rw [insertBefore, List.mem_append, List.mem_cons, or_left_comm, ← List.mem_append,
    List.takeWhile_append_dropWhile]

omit [Fintype T] in
theorem nodup_insertBefore {c : T} {l : List T} (hl : l.Nodup) (ht : t ∉ l) :
    (insertBefore c t l).Nodup := by
  have hperm : (insertBefore c t l).Perm (t :: l) := by
    conv_rhs => rw [← List.takeWhile_append_dropWhile (p := (· ≠ c)) (l := l)]
    exact List.perm_middle
  exact hperm.nodup_iff.2 (List.nodup_cons.2 ⟨ht, hl⟩)

/-- `wake_up_forked_process` -/
theorem Inv.wakeUpForkedProcess (hI : s.Inv) (c : T) (ht : (s.task t).array = none) (bonus : ℤ) :
    (s.wakeUpForkedProcess c t bonus).Inv := by
  set s₁ := s.setEffectivePrio t bonus with hs₁
  have hself : s₁.task t = { s.task t with prio := (s.task t).effectivePrio bonus } :=
    Function.update_self ..
  have hI₁ : s₁.Inv := by
    refine hI.set (t := t) ⟨rfl, rfl, rfl, rfl, rfl⟩ rfl ?_ (.inl (RqTask.effectivePrio_lt _ _))
      (hI.staticPrio t)
    rw [place_eq_none ht, RqTask.place, ht]
    rfl
  have ht₁ : (s₁.task t).array = none := by rw [hself, ht]
  simp only [RunQueue.wakeUpForkedProcess, ← hs₁]
  cases hac : (s₁.task c).array with
  | none =>
    exact hI₁.activate ht₁ (same_refl s₁) (Function.update_eq_self ..).symm
      (by rw [hself]; exact RqTask.effectivePrio_lt _ _) (hI₁.staticPrio t)
  | some a =>
    have hplace := place_of_array hac
    have hnone := place_eq_none ht₁
    set p := (a, (s₁.task c).prio) with hp
    have hmem : c ∈ s₁.queue p := (hI₁.queues.linked.mem_iff p c).2 hplace
    have hprio := prio_lt (hI₁.prio c) (.inr (by rw [hac]; nofun))
    refine hI₁.move (t := t) (x := { s₁.task t with prio := (s₁.task c).prio, array := some a })
      rfl ⟨?_, fun q => ?_, fun b => ?_⟩ ?_ rfl (.inl hprio) (hI₁.staticPrio t)
    · exact hI₁.queues.linked.insert hnone
        (nodup_insertBefore (hI₁.queues.linked.nodup p) (hI₁.queues.linked.not_mem hnone p))
        fun u => mem_insertBefore
    · change s₁.bitmap q = true ↔ Function.update s₁.queue p _ q ≠ []
      rcases eq_or_ne q p with rfl | hq
      · rw [Function.update_self]
        refine iff_of_true ((hI₁.queues.bitmap p).2 (List.ne_nil_of_mem hmem)) ?_
        exact List.ne_nil_of_mem (mem_insertBefore.2 (.inl rfl))
      · rw [Function.update_of_ne hq]
        exact hI₁.queues.bitmap q
    · change Function.update s₁.nrActive a (s₁.nrActive a + 1) b = _
      rw [Tally.tally_update, hnone]
      rcases eq_or_ne b a with rfl | hb
      · rw [Function.update_self, hI₁.queues.nrActive]
        simp [inArray, RqTask.place]
      · rw [Function.update_of_ne hb, hI₁.queues.nrActive]
        simp [inArray, RqTask.place, Ne.symm hb]
    · change s₁.nrRunning + 1 = _
      rw [hnone]
      simp [inQueue, RqTask.place]

omit [Fintype T] in
theorem dequeueTask_task (s : RunQueue T) (t : T) (o : Option Bool) :
    (s.dequeueTask t o).task = s.task := by
  cases o <;> rfl

/-- A task whose time slice is over. -/
theorem Inv.expire (hI : s.Inv) {c : T} (ht : (s.task c).array = some s.active) (bonus : ℤ)
    (jiffies : BitVec 32) : (s.expire c bonus jiffies).Inv := by
  have htask : (s.refill c bonus jiffies).task = Function.update s.task c
      { s.task c with
        prio := (s.task c).effectivePrio bonus
        timeSlice := ({ s.task c with
          prio := (s.task c).effectivePrio bonus } : RqTask).taskTimeslice } := by
    simp only [refill, setTask, setEffectivePrio, Function.update_idem, Function.update_self,
      dequeueTask_task]
  have hrequeue : ∀ b, ((s.refill c bonus jiffies).enqueueTask c b).Inv := fun b =>
    hI.requeue (s.refill c bonus jiffies) ht ⟨rfl, rfl, rfl, rfl, rfl⟩ htask
      (RqTask.effectivePrio_lt _ _) (hI.staticPrio c) b
  unfold RunQueue.expire
  generalize s.refill c bonus jiffies = s₁ at hrequeue ⊢
  dsimp only
  split
  · split
    · exact (hrequeue _).congr ⟨rfl, rfl, rfl, rfl, rfl⟩ rfl
    · exact hrequeue _
  · exact hrequeue _

/-- A task goes to the end of its queue, with another priority or without. -/
theorem Inv.rotate (hI : s.Inv) (ht : (s.task t).array = some a) (bonus : ℤ) (b : Bool) :
    ((s.dequeueTask t (some a)).enqueueTask t b).Inv ∧
      (((s.dequeueTask t (some a)).setEffectivePrio t bonus).enqueueTask t b).Inv := by
  have hprio := prio_lt (hI.prio t) (.inr (by rw [ht]; nofun))
  exact ⟨hI.requeue _ ht (same_refl _) (Function.update_eq_self ..).symm hprio (hI.staticPrio t) b,
    hI.requeue ((s.dequeueTask t (some a)).setEffectivePrio t bonus) ht ⟨rfl, rfl, rfl, rfl, rfl⟩
      rfl (RqTask.effectivePrio_lt _ _) (hI.staticPrio t) b⟩

/-- `scheduler_tick` -/
theorem Inv.schedulerTick (hI : s.Inv) (c : T) (bonus : ℤ) (jiffies : BitVec 32) :
    (s.schedulerTick c bonus jiffies).Inv := by
  unfold RunQueue.schedulerTick
  split
  · exact hI
  next hc =>
    rw [not_or, not_not] at hc
    have hslice : ∀ n, (s.setTask c { s.task c with timeSlice := n }).Inv := fun n =>
      hI.set (t := c) ⟨rfl, rfl, rfl, rfl, rfl⟩ rfl rfl (hI.prio c) (hI.staticPrio c)
    have harray : ∀ n, ((s.setTask c { s.task c with timeSlice := n }).task c).array =
        some s.active := fun n => by
      simp only [setTask, Function.update_self, hc.2]
    dsimp only
    split
    · split
      · split
        · exact ((hslice _).rotate (harray _) bonus _).1
        · exact hslice _
      · exact hI
    · split
      · exact (hslice _).expire (harray _) bonus jiffies
      · split
        · exact ((hslice _).rotate (harray _) bonus _).2
        · exact hslice _

/-- `set_user_nice` -/
theorem Inv.setUserNice (hI : s.Inv) (t : T) (nice : ℤ) : (s.setUserNice t nice).Inv := by
  unfold RunQueue.setUserNice
  split
  · exact hI
  next hnice =>
    have hlt : ((maxRtPrio : ℤ) + nice + 20).toNat < maxPrio := by
      simp only [maxRtPrio, maxPrio]
      omega
    dsimp only
    split
    · exact hI.set (t := t) ⟨rfl, rfl, rfl, rfl, rfl⟩ rfl rfl (hI.prio t) hlt
    · cases harray : (s.task t).array with
      | none =>
        refine hI.set (t := t) ⟨rfl, rfl, rfl, rfl, rfl⟩ rfl ?_ (.inl hlt) hlt
        rw [place_eq_none harray]
        rfl
      | some a =>
        exact hI.requeue ((s.dequeueTask t (some a)).setTask t _) harray
          ⟨rfl, rfl, rfl, rfl, rfl⟩ rfl hlt hlt a

/-- `setscheduler` -/
theorem Inv.setscheduler (hI : s.Inv) (t : T) (policy : SchedPolicy) (prio : Fin 100) :
    (s.setscheduler t policy prio).Inv := by
  have hlt : (if policy ≠ .normal then 99 - prio.val else (s.task t).staticPrio) < maxPrio := by
    have := hI.staticPrio t
    split
    · simp only [maxPrio]
      omega
    · exact this
  unfold RunQueue.setscheduler
  split
  next hnone =>
    refine hI.set (t := t) ⟨rfl, rfl, rfl, rfl, rfl⟩ rfl ?_ (.inl hlt) (hI.staticPrio t)
    rw [place_eq_none hnone, RqTask.place, hnone]
    rfl
  next hsome =>
    obtain ⟨a, ha⟩ := Option.ne_none_iff_exists'.1 hsome
    have hself : (s.deactivateTask t).task t = { s.task t with array := none } := by
      simp only [deactivateTask, setTask, Function.update_self, dequeueTask_task]
    refine (hI.deactivate ha).activate (by rw [hself]) ⟨rfl, rfl, rfl, rfl, rfl⟩ rfl ?_ ?_
    · rw [hself]
      exact hlt
    · rw [hself]
      exact hI.staticPrio t

/-- `sys_sched_yield` -/
theorem Inv.schedYield (hI : s.Inv) (ht : (s.task t).array ≠ none)
    (h : s.schedYield t = some s') : s'.Inv := by
  obtain ⟨a, ha⟩ := Option.ne_none_iff_exists'.1 ht
  unfold RunQueue.schedYield at h
  split at h
  · cases h
    rw [ha]
    exact (hI.rotate ha 0 _).1
  · rw [ha] at h
    cases h
    have hplace := place_of_array ha
    set p := (a, (s.task t).prio) with hp
    have hlinked := (hI.queues.linked.erase t).push (Function.update_self ..) p
    rw [Function.update_idem, ← hplace, Function.update_eq_self] at hlinked
    refine hI.move (t := t) (x := s.task t) (Function.update_eq_self ..).symm ?_ ?_ rfl (hI.prio t)
      (hI.staticPrio t)
    · change Queues (Function.update s.place t (s.place t)) _
      rw [Function.update_eq_self]
      refine ⟨hlinked, fun q => ?_, hI.queues.nrActive⟩
      -- the same tasks are in each queue
      have hmem : ∀ u, u ∈ s.queue q ↔ u ∈ Function.update (fun q => (s.queue q).erase t) p
          ((s.queue p).erase t ++ [t]) q := fun u => by
        rw [hI.queues.linked.mem_iff, hlinked.mem_iff]
      change s.bitmap q = true ↔ Function.update (fun q => (s.queue q).erase t) p
        ((s.queue p).erase t ++ [t]) q ≠ []
      rw [hI.queues.bitmap, Ne, Ne, List.eq_nil_iff_forall_not_mem, List.eq_nil_iff_forall_not_mem]
      exact not_congr (forall_congr' fun u => not_congr (hmem u))
    · change s.nrRunning = s.nrRunning - inQueue (s.place t) + inQueue (s.place t)
      ring

/-- `init_idle` -/
theorem Inv.initIdle (hI : s.Inv) (ht : (s.task s.idle).array ≠ none) : s.initIdle.Inv := by
  obtain ⟨a, ha⟩ := Option.ne_none_iff_exists'.1 ht
  have hI₁ : ({ s with curr := s.idle } : RunQueue T).Inv :=
    hI.congr ⟨rfl, rfl, rfl, rfl, rfl⟩ rfl
  have hI₂ := hI₁.deactivate (t := s.idle) ha
  rw [RunQueue.initIdle]
  set d := ({ s with curr := s.idle } : RunQueue T).deactivateTask s.idle with hd
  have hself : d.task s.idle = { s.task s.idle with array := none } := by
    simp only [hd, deactivateTask, setTask, Function.update_self, dequeueTask_task]
  have hidle : d.idle = s.idle := by
    rw [hd, deactivateTask, ha]
    rfl
  refine hI₂.set (t := d.idle) ⟨rfl, rfl, rfl, rfl, rfl⟩ rfl ?_ (.inr ⟨rfl, rfl, rfl⟩)
    (hI₂.staticPrio _)
  rw [hidle, place, hself]
  rfl

/-- A task that does not run any more is taken out. -/
theorem Inv.deschedule (hI : s.Inv) (hq : (s.task t).state ≠ 0 → (s.task t).array ≠ none)
    (signal : Bool) : (s.deschedule t signal).Inv := by
  unfold RunQueue.deschedule
  split
  · exact hI
  next hstate =>
    obtain ⟨a, ha⟩ := Option.ne_none_iff_exists'.1 (hq hstate)
    split
    · exact hI.set (t := t) ⟨rfl, rfl, rfl, rfl, rfl⟩ rfl rfl
        (.inl (prio_lt (hI.prio t) (.inl hstate))) (hI.staticPrio t)
    · exact hI.deactivate ha

omit [Fintype T] in
theorem deschedule_idle (s : RunQueue T) (t : T) (signal : Bool) :
    (s.deschedule t signal).idle = s.idle := by
  unfold deschedule
  split
  · rfl
  · split
    · rfl
    · rw [deactivateTask]
      cases (s.task t).array <;> rfl

omit [DecidableEq T] in
/-- The arrays change places. -/
theorem Inv.switchArrays (hI : s.Inv) : s.switchArrays.Inv := by
  unfold RunQueue.switchArrays
  split
  · exact hI.congr ⟨rfl, rfl, rfl, rfl, rfl⟩ rfl
  · exact hI

omit [DecidableEq T] in
/-- An array without tasks. -/
theorem Inv.nrActive_eq_zero (hI : s.Inv) :
    s.nrActive a = 0 ↔ ∀ u, (s.task u).array ≠ some a := by
  rw [hI.queues.nrActive]
  constructor
  · intro hzero u hu
    have hle := Tally.le_tally (f := s.place) (inArray_nonneg a) u
    rw [hzero, place_of_array hu] at hle
    simp [inArray] at hle
  · intro hno
    refine Tally.tally_eq_zero fun u => ?_
    cases hu : (s.task u).array with
    | none => rw [place_eq_none hu]; rfl
    | some b =>
      rw [place_of_array hu]
      exact if_neg fun hba => hno u (hu.trans (congrArg some hba))

omit [DecidableEq T] in
/-- Nobody is queued. -/
theorem Inv.nrRunning_eq_zero (hI : s.Inv) :
    s.nrRunning = 0 ↔ ∀ u, (s.task u).array = none := by
  rw [hI.nrRunning]
  constructor
  · intro hzero u
    by_contra hu
    obtain ⟨b, hb⟩ := Option.ne_none_iff_exists'.1 hu
    have hle := Tally.le_tally (f := s.place) inQueue_nonneg u
    rw [hzero, place_of_array hb] at hle
    simp [inQueue] at hle
  · intro hno
    refine Tally.tally_eq_zero fun u => ?_
    rw [place_eq_none (hno u)]
    rfl

omit [DecidableEq T] in
/-- **The first task** of the active array. -/
theorem Inv.first_spec (hI : s.Inv) (hsome : s.nrActive s.active ≠ 0) :
    ∃ u, s.first = some u ∧ (s.task u).array = some s.active ∧
      (∀ v, (s.task v).array = some s.active → (s.task u).prio ≤ (s.task v).prio) ∧
      (s.queue (s.active, (s.task u).prio)).head? = some u := by
  have hbit : ∀ v, (s.task v).array = some s.active →
      s.bitmap (s.active, (s.task v).prio) = true ∧ (s.task v).prio < maxPrio := by
    intro v hv
    have hmem := (hI.queues.linked.mem_iff _ v).2 (place_of_array hv)
    exact ⟨(hI.queues.bitmap _).2 (List.ne_nil_of_mem hmem),
      prio_lt (hI.prio v) (.inr (by rw [hv]; nofun))⟩
  rw [Ne, hI.nrActive_eq_zero] at hsome
  push Not at hsome
  obtain ⟨v, hv⟩ := hsome
  cases hfind : (List.range maxPrio).find? fun k => s.bitmap (s.active, k) with
  | none =>
    have hno := List.find?_eq_none.1 hfind _ (List.mem_range.2 (hbit v hv).2)
    exact absurd (hbit v hv).1 hno
  | some k =>
    obtain ⟨hk, -, hleast⟩ := List.find?_range_eq_some.1 hfind
    cases hqueue : s.queue (s.active, k) with
    | nil => exact absurd hqueue ((hI.queues.bitmap _).1 hk)
    | cons u q =>
      have hmem : u ∈ s.queue (s.active, k) := hqueue ▸ List.mem_cons_self
      have hplace := (hI.queues.linked.mem_iff _ u).1 hmem
      obtain ⟨b, hb, hbk⟩ := Option.map_eq_some_iff.1 hplace
      obtain ⟨rfl, rfl⟩ := Prod.mk.inj hbk
      refine ⟨u, ?_, hb, fun w hw => ?_, by rw [hqueue]; rfl⟩
      · rw [first, hfind]
        simp only [hqueue, List.head?_cons]
      · by_contra hlt
        have := hleast _ (not_le.1 hlt)
        simp [(hbit w hw).1] at this

/-- The task that `schedule` has found. -/
theorem Inv.creditNext (hI : s.Inv) (u : T) (bonus : ℤ) : (s.creditNext u bonus).Inv := by
  unfold RunQueue.creditNext
  split
  · split
    · exact hI
    next a ha => exact (hI.rotate ha bonus a).2
  · exact hI

/-- **`schedule`.** -/
theorem Inv.schedule (hI : s.Inv) (hq : (s.task t).state ≠ 0 → (s.task t).array ≠ none)
    (signal : Bool) (bonus : ℤ) :
    ∃ s', s.schedule t signal bonus = some s' ∧ s'.Inv ∧
      ((∀ u, ((s.deschedule t signal).task u).array = none) ∧ s'.curr = s.idle ∨
        (s.deschedule t signal).switchArrays.first = some s'.curr ∧
        (s.deschedule t signal).switchArrays.nrActive
          (s.deschedule t signal).switchArrays.active ≠ 0) := by
  have hI₁ := hI.deschedule hq signal
  have hidle := s.deschedule_idle t signal
  unfold RunQueue.schedule
  generalize s.deschedule t signal = s₁ at hI₁ hidle ⊢
  dsimp only
  split
  next hzero =>
    exact ⟨_, rfl, hI₁.congr ⟨rfl, rfl, rfl, rfl, rfl⟩ rfl,
      .inl ⟨hI₁.nrRunning_eq_zero.1 hzero, hidle⟩⟩
  next hne =>
    have hI₂ := hI₁.switchArrays
    have hsome : s₁.switchArrays.nrActive s₁.switchArrays.active ≠ 0 := by
      unfold RunQueue.switchArrays
      split
      next hzero =>
        -- who is queued is in the other array
        intro hother
        rw [hI₁.nrActive_eq_zero] at hzero hother
        rw [hI₁.nrRunning_eq_zero] at hne
        push Not at hne
        obtain ⟨u, hu⟩ := hne
        obtain ⟨b, hb⟩ := Option.ne_none_iff_exists'.1 hu
        rcases Bool.eq_or_eq_not b s₁.active with rfl | rfl
        · exact hzero u hb
        · exact hother u hb
      next hne => exact hne
    obtain ⟨u, hu, -⟩ := hI₂.first_spec hsome
    rw [hu]
    refine ⟨_, rfl, ?_, .inr ⟨rfl, hsome⟩⟩
    have hI₃ := hI₂.creditNext u bonus
    exact hI₃.set (t := u) ⟨rfl, rfl, rfl, rfl, rfl⟩ rfl rfl (hI₃.prio u) (hI₃.staticPrio u)

/-- Every step keeps the invariant. -/
theorem Inv.step {act : RqAct T} (hI : s.Inv) (hq : s.Queued act) (h : s.step act = some s') :
    s'.Inv := by
  cases act with
  | setState t state =>
    cases h
    refine hI.set (t := t) ⟨rfl, rfl, rfl, rfl, rfl⟩ rfl rfl ?_ (hI.staticPrio t)
    exact (hI.prio t).imp id fun hidle => ⟨hidle.1, hq hidle.1, hidle.2.2⟩
  | wake t states sync i bonus =>
    cases h
    exact hI.tryToWakeUp t states sync i bonus
  | fork c t bonus =>
    cases h
    exact hI.wakeUpForkedProcess c hq bonus
  | schedule t signal bonus =>
    obtain ⟨s₁, hs₁, hI₁, -⟩ := hI.schedule hq signal bonus
    exact Option.some.inj (hs₁.symm.trans h) ▸ hI₁
  | schedulerTick c bonus jiffies =>
    cases h
    exact hI.schedulerTick c bonus jiffies
  | setUserNice t nice =>
    cases h
    exact hI.setUserNice t nice
  | setscheduler t policy prio =>
    cases h
    exact hI.setscheduler t policy prio
  | schedYield t => exact hI.schedYield hq h
  | initIdle =>
    cases h
    exact hI.initIdle hq

/-! ### Runs -/

theorem inv_init (idle : T) : (machine idle).init.Inv where
  queues :=
    { linked := ⟨fun _ _ => ⟨nofun, nofun⟩, fun _ => List.nodup_nil⟩
      bitmap := fun _ => by simp [machine]
      nrActive := fun _ => (Tally.tally_eq_zero fun _ => rfl).symm }
  nrRunning := (Tally.tally_eq_zero fun _ => rfl).symm
  prio _ := .inl (by decide : 120 < maxPrio)
  staticPrio _ := (by decide : 120 < maxPrio)

theorem inv_of_run {idle : T} {as : List (RqAct T)}
    (hrun : (machine idle).Run Queued (machine idle).init as s) : s.Inv :=
  hrun.invariant (fun _ _ _ hI hq hst => hI.step hq hst) (inv_init idle)

/-- **The run queue is consistent** in every run in which the tasks that are taken out were in it:
each task is in the queue of its array for its priority and in no other one, the bits are those of
the queues that are not empty, and the counters count the tasks. -/
theorem consistent {idle : T} {as : List (RqAct T)}
    (hrun : (machine idle).Run Queued (machine idle).init as s) :
    (∀ a k u, u ∈ s.queue (a, k) ↔ (s.task u).array = some a ∧ (s.task u).prio = k) ∧
      (∀ a k, s.bitmap (a, k) = true ↔ s.queue (a, k) ≠ []) ∧
      (∀ a, s.nrActive a = (Finset.univ.filter fun u => (s.task u).array = some a).card) ∧
      s.nrRunning = (Finset.univ.filter fun u => (s.task u).array ≠ none).card := by
  have hI := inv_of_run hrun
  refine ⟨fun a k u => ?_, fun a k => hI.queues.bitmap _, fun a => ?_, ?_⟩
  · rw [hI.queues.linked.mem_iff, place, RqTask.place, Option.map_eq_some_iff]
    constructor
    · rintro ⟨b, hb, heq⟩
      obtain ⟨rfl, rfl⟩ := Prod.mk.inj heq
      exact ⟨hb, rfl⟩
    · rintro ⟨ha, rfl⟩
      exact ⟨a, ha, rfl⟩
  · rw [hI.queues.nrActive]
    refine Tally.tally_eq_card fun u => ?_
    cases hu : (s.task u).array with
    | none => rw [place_eq_none hu]; rfl
    | some b => rw [place_of_array hu]; simp [inArray]
  · rw [hI.nrRunning]
    refine Tally.tally_eq_card fun u => ?_
    cases hu : (s.task u).array with
    | none => rw [place_eq_none hu]; rfl
    | some b => rw [place_of_array hu]; rfl

/-- The first task of the queue with the least number, in the active array, or in the expired array
when nobody is in the active one. -/
structure Best (s : RunQueue T) (a : Bool) (u : T) : Prop where
  array : (s.task u).array = some a
  active : a = s.active ∨ ∀ v, (s.task v).array ≠ some s.active
  prio : ∀ v, (s.task v).array = some a → (s.task u).prio ≤ (s.task v).prio
  head : (s.queue (a, (s.task u).prio)).head? = some u

/-- **`schedule` picks a task with the best priority.**  In every such run it finds its next task:
the idle task if nobody is queued, and else the first one of the best queue. -/
theorem schedule_picks {idle : T} {as : List (RqAct T)}
    (hrun : (machine idle).Run Queued (machine idle).init as s) (t : T) (signal : Bool) (bonus : ℤ)
    (hq : s.Queued (.schedule t signal bonus)) :
    ∃ s', s.step (.schedule t signal bonus) = some s' ∧
      ((∀ u, ((s.deschedule t signal).task u).array = none) ∧ s'.curr = s.idle ∨
        ∃ a, (s.deschedule t signal).Best a s'.curr) := by
  have hI := inv_of_run hrun
  obtain ⟨s', hs', -, hcases⟩ := hI.schedule hq signal bonus
  refine ⟨s', hs', hcases.imp id ?_⟩
  rintro ⟨hfirst, hsome⟩
  have hI₁ := hI.deschedule hq signal
  generalize s.deschedule t signal = s₁ at hfirst hsome hI₁ ⊢
  obtain ⟨u, hu, harray, hleast, hhead⟩ := hI₁.switchArrays.first_spec hsome
  obtain rfl := Option.some.inj (hu.symm.trans hfirst)
  have hframe : s₁.switchArrays.task = s₁.task ∧ s₁.switchArrays.queue = s₁.queue ∧
      (s₁.switchArrays.active = s₁.active ∨ s₁.nrActive s₁.active = 0) := by
    unfold RunQueue.switchArrays
    split
    next hzero => exact ⟨rfl, rfl, .inr hzero⟩
    next => exact ⟨rfl, rfl, .inl rfl⟩
  rw [hframe.1] at harray hleast hhead
  rw [hframe.2.1] at hhead
  exact ⟨_, harray, hframe.2.2.imp id hI₁.nrActive_eq_zero.1, hleast, hhead⟩

/-- A task goes to sleep beside the idle task `false`, and is woken. -/
def sleeps : List (RqAct Bool) :=
  [.fork false false 5, .initIdle, .fork false true 5, .schedule false false 5,
    .schedulerTick true 5 0, .setState true 1, .schedule true false 5, .wake true 1 false true 9]

theorem run_sleeps {s : RunQueue Bool}
    (h : (machine false).exec (machine false).init sleeps = some s) :
    (machine false).Run Queued (machine false).init sleeps s :=
  Machine.run_of_check (fun _ _ => of_decide_eq_true) h (by decide)

theorem consistent_sleeps :
    ∃ s : RunQueue Bool, (machine false).exec (machine false).init sleeps = some s ∧
      (∀ a k u, u ∈ s.queue (a, k) ↔ (s.task u).array = some a ∧ (s.task u).prio = k) ∧
      (∀ a k, s.bitmap (a, k) = true ↔ s.queue (a, k) ≠ []) ∧
      (∀ a, s.nrActive a = (Finset.univ.filter fun u => (s.task u).array = some a).card) ∧
      s.nrRunning = (Finset.univ.filter fun u => (s.task u).array ≠ none).card := by
  have hrun := Option.eq_some_of_isSome
    (o := (machine false).exec (machine false).init sleeps) rfl
  exact ⟨_, hrun, consistent (run_sleeps hrun)⟩

theorem schedule_picks_sleeps :
    ∃ s s' : RunQueue Bool, (machine false).exec (machine false).init sleeps = some s ∧
      s.step (.schedule false false 5) = some s' ∧
      ((∀ u, ((s.deschedule false false).task u).array = none) ∧ s'.curr = s.idle ∨
        ∃ a, (s.deschedule false false).Best a s'.curr) := by
  have hrun := Option.eq_some_of_isSome
    (o := (machine false).exec (machine false).init sleeps) rfl
  exact ⟨_, _, hrun, (schedule_picks (run_sleeps hrun) false false 5 (by decide)).choose_spec⟩

end RunQueue

end LxApi32
