import Mathlib.Data.List.Basic
import Mathlib.Logic.Function.Basic

/-!
# Wait queues

A task that waits is in the list of a wait queue, and its `state` is not `TASK_RUNNING`.  Who wakes
the queue goes through the list up to the first task that it has put back into a run queue.  A task
that is still in one, since it has not come to `schedule` yet, is made running as well, but the walk
goes on.

* `wakeUp_head` : after a wakeup the task in front runs.
* `wakeUp_cases` : the others are as they were, or run.
-/

namespace LxApi32

/-- `state` of a task. -/
inductive TaskState
  | running
  | interruptible
  | uninterruptible
  deriving DecidableEq, Repr

/-- What the scheduler knows of a task. -/
structure SchedTask where
  /-- `state` -/
  state : TaskState
  /-- `array`: it is in a run queue. -/
  array : Bool
  deriving DecidableEq, Repr

namespace SchedTask

/-- `try_to_wake_up`, for both kinds of sleepers. -/
def tryToWakeUp (p : SchedTask) : SchedTask × Bool :=
  if p.state = .running then (p, false) else ({ state := .running, array := true }, !p.array)

/-- A task that has been woken runs. -/
theorem tryToWakeUp_state (p : SchedTask) : p.tryToWakeUp.1.state = .running := by
  unfold tryToWakeUp
  split <;> first | assumption | rfl

theorem tryToWakeUp_cases (p : SchedTask) :
    p.tryToWakeUp.1 = p ∨ p.tryToWakeUp.1 = { state := .running, array := true } := by
  unfold tryToWakeUp
  split <;> simp

end SchedTask

variable {T : Type*} [DecidableEq T]

/-- `__wake_up_common` for one exclusive waiter: the tasks after the walk through the list. -/
def wakeUpCommon : List T → (T → SchedTask) → T → SchedTask
  | [], task => task
  | t :: q, task =>
    let p := (task t).tryToWakeUp
    let task' := Function.update task t p.1
    if p.2 then task' else wakeUpCommon q task'

variable {t u : T} {q : List T} {task : T → SchedTask}

/-- What runs is not changed. -/
theorem wakeUp_of_running (h : (task u).state = .running) : wakeUpCommon q task u = task u := by
  induction q generalizing task with
  | nil => rfl
  | cons t q ih =>
    have hu : Function.update task t (task t).tryToWakeUp.1 u = task u := by
      rcases eq_or_ne u t with rfl | hne
      · rw [Function.update_self, SchedTask.tryToWakeUp, if_pos h]
      · rw [Function.update_of_ne hne]
    simp only [wakeUpCommon]
    split
    · exact hu
    · rw [ih (by rw [hu, h]), hu]

/-- A task is as it was, or runs. -/
theorem wakeUp_cases (q : List T) (task : T → SchedTask) (u : T) :
    wakeUpCommon q task u = task u ∨
      wakeUpCommon q task u = { state := .running, array := true } := by
  induction q generalizing task with
  | nil => exact .inl rfl
  | cons t q ih =>
    have hu : Function.update task t (task t).tryToWakeUp.1 u = task u ∨
        Function.update task t (task t).tryToWakeUp.1 u = { state := .running, array := true } := by
      rcases eq_or_ne u t with rfl | hne
      · rw [Function.update_self]
        exact (task u).tryToWakeUp_cases
      · exact .inl (Function.update_of_ne hne ..)
    simp only [wakeUpCommon]
    split
    · exact hu
    rcases ih (Function.update task t (task t).tryToWakeUp.1) with h | h
    · rw [h]
      exact hu
    · exact .inr h

/-- **After a wakeup** the task in front runs. -/
theorem wakeUp_head (t : T) (q : List T) (task : T → SchedTask) :
    (wakeUpCommon (t :: q) task t).state = .running := by
  have ht : (Function.update task t (task t).tryToWakeUp.1 t).state = .running := by
    rw [Function.update_self]
    exact (task t).tryToWakeUp_state
  simp only [wakeUpCommon]
  split
  · exact ht
  · rw [wakeUp_of_running ht, ht]

end LxApi32
