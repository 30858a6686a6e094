import LxApi32.Lib.Machine
import LxApi32.Lib.Tally
import LxApi32.Sync.WaitQueue
import Mathlib.Data.Fintype.Card
import Mathlib.Tactic.Linarith

/-!
# Semaphores

`down` takes 1 from `count` and has the semaphore if that is not negative then; otherwise it waits
in a loop that it goes through with the lock of the wait queue.  `sleepers` is what all that wait
have taken from `count` together: nothing or 1.  `up` adds 1 and wakes the queue if `count` is not
positive then.  Only `count` is changed without the lock.

* `Semaphore.downs_le` : there are never more acquisitions than the semaphore had to give.
* `Semaphore.waits_only_for_unit` : if nobody can go on, then nobody waits, or there is nothing to
  give.

Both hold for any number of tasks and in any order of their steps, with `down_interruptible` that
finds a signal, and `down_trylock`.
-/

namespace LxApi32

/-- The functions that take the semaphore. -/
inductive DownKind
  | down
  | downInterruptible
  | downTrylock
  deriving DecidableEq, Repr

/-- The `state` in which they wait. -/
def DownKind.state : DownKind → TaskState
  | .downInterruptible => .interruptible
  | _ => .uninterruptible

/-- Where a task is. -/
inductive SemPc
  /-- In none of the functions. -/
  | out
  /-- `count` has become negative by its `decl`, and it is called `_down`, `_down_interruptible` or
  `_down_trylock`. -/
  | failed (k : DownKind)
  /-- It has set its `state`. -/
  | prepared (k : DownKind)
  /-- At the beginning of the loop, with the lock. -/
  | looping (k : DownKind)
  /-- It calls `schedule`. -/
  | sleeping (k : DownKind)
  /-- `schedule` has taken it out of the run queue. -/
  | blocked (k : DownKind)
  /-- `schedule` has returned. -/
  | woken (k : DownKind)
  /-- Behind the loop, with the lock. -/
  | leaving
  /-- It has released the lock. -/
  | returning
  /-- `_down_trylock` with the lock. -/
  | trying
  /-- `_up` -/
  | upWakes
  deriving DecidableEq, Repr

/-- A `struct semaphore` with the tasks that use it. -/
structure Semaphore (T : Type*) where
  /-- `count` -/
  count : ℤ
  /-- `sleepers` -/
  sleepers : ℤ
  /-- The list of `wait`. -/
  wait : List T
  /-- The holder of the lock of `wait`. -/
  lock : Option T
  /-- The tasks. -/
  task : T → SchedTask
  /-- Where they are. -/
  pc : T → SemPc
  /-- How often `up` has been called. -/
  ups : ℕ
  /-- How often the semaphore has been taken. -/
  downs : ℕ

/-- What happens. -/
inductive SemAct (T : Type*)
  /-- `down`, `down_interruptible` or `down_trylock` -/
  | down (t : T) (k : DownKind)
  /-- `up` -/
  | up (t : T)
  /-- The next step of a task in one of the functions, for which a signal is pending or not. -/
  | next (t : T) (signal : Bool)
  /-- A task is woken for another reason. -/
  | wake (t : T)
  /-- `DevBlock` returns though the task has not been woken. -/
  | interrupt (t : T)
  deriving DecidableEq, Repr

namespace Semaphore

variable {T : Type*} [DecidableEq T]

/-- A task goes to another place. -/
def goto (s : Semaphore T) (t : T) (p : SemPc) : Semaphore T :=
  { s with pc := Function.update s.pc t p }

/-- A task sets its `state`. -/
def setState (s : Semaphore T) (t : T) (x : TaskState) : Semaphore T :=
  { s with task := Function.update s.task t { s.task t with state := x } }

/-- `wake_up_locked` -/
def wakeUpLocked (s : Semaphore T) : Semaphore T := { s with task := wakeUpCommon s.wait s.task }

/-- The loop of `_down` and `_down_interruptible` up to its end or to the `schedule`. -/
def loop (s : Semaphore T) (t : T) (k : DownKind) (signal : Bool) : Semaphore T :=
  if k = .downInterruptible ∧ signal then
    { s with count := s.count + s.sleepers, sleepers := 0 }.goto t .leaving
  else if 0 ≤ s.count + (s.sleepers - 1) then
    { s with count := s.count + (s.sleepers - 1), sleepers := 0, downs := s.downs + 1 }.goto t
      .leaving
  else
    { s with count := s.count + (s.sleepers - 1), sleepers := 1, lock := none }.goto t (.sleeping k)

/-- `schedule` of a task with this `state`. -/
def schedule (s : Semaphore T) (t : T) (k : DownKind) (signal : Bool) : Semaphore T :=
  if (s.task t).state = .running then s.goto t (.woken k)
  else if (s.task t).state = .interruptible ∧ signal then (s.setState t .running).goto t (.woken k)
  else
    { s with task := Function.update s.task t { s.task t with array := false } }.goto t (.blocked k)

/-- `_down_trylock` with the lock, which it releases. -/
def trylock (s : Semaphore T) (t : T) : Semaphore T :=
  let s' := { s with count := s.count + (s.sleepers + 1), sleepers := 0, lock := none }.goto t .out
  if 0 ≤ s'.count then s'.wakeUpLocked else s'

/-- The next step of a task. -/
def next (s : Semaphore T) (t : T) (signal : Bool) : Option (Semaphore T) :=
  match s.pc t with
  | .out => none
  | .failed .downTrylock =>
    if s.lock = none then some ({ s with lock := some t }.goto t .trying) else none
  | .failed k => some ((s.setState t k.state).goto t (.prepared k))
  | .prepared k =>
    if s.lock = none then
      some ({ s with
        lock := some t, wait := s.wait ++ [t], sleepers := s.sleepers + 1 }.goto t (.looping k))
    else none
  | .looping k => some (s.loop t k signal)
  | .sleeping k => some (s.schedule t k signal)
  | .blocked k => if (s.task t).array then some (s.goto t (.woken k)) else none
  | .woken k =>
    if s.lock = none then
      some (({ s with lock := some t }.setState t k.state).goto t (.looping k))
    else none
  | .leaving =>
    some ({ { s with wait := s.wait.erase t }.wakeUpLocked with lock := none }.goto t .returning)
  | .returning => some ((s.setState t .running).goto t .out)
  | .trying => some (s.trylock t)
  | .upWakes => if s.lock = none then some (s.wakeUpLocked.goto t .out) else none

/-- The step function. -/
def step (s : Semaphore T) : SemAct T → Option (Semaphore T)
  | .down t k =>
    if s.pc t = .out then
      if 0 ≤ s.count - 1 then some { s with count := s.count - 1, downs := s.downs + 1 }
      else some ({ s with count := s.count - 1 }.goto t (.failed k))
    else none
  | .up t =>
    if s.pc t = .out then
      let s' := { s with count := s.count + 1, ups := s.ups + 1 }
      if 0 < s'.count then some s' else some (s'.goto t .upWakes)
    else none
  | .next t signal => s.next t signal
  | .wake t => some { s with task := Function.update s.task t (s.task t).tryToWakeUp.1 }
  | .interrupt t =>
    match s.pc t with
    | .blocked k => some (s.goto t (.woken k))
    | _ => none

/-- `sema_init` with the value `n`. -/
def machine (T : Type*) [DecidableEq T] (n : ℕ) : Machine (Semaphore T) (SemAct T) where
  init :=
    { count := n, sleepers := 0, wait := [], lock := none, task := fun _ => ⟨.running, true⟩
      pc := fun _ => .out, ups := 0, downs := 0 }
  step := step

/-! ### What a step does -/

/-- The steps, each with its condition and the state after it. -/
inductive Step (s : Semaphore T) : Semaphore T → Prop
  | got (t : T) : s.pc t = .out → 0 ≤ s.count - 1 →
    Step s { s with count := s.count - 1, downs := s.downs + 1 }
  | fails (t : T) (k : DownKind) : s.pc t = .out → s.count - 1 < 0 →
    Step s ({ s with count := s.count - 1 }.goto t (.failed k))
  | up (t : T) : s.pc t = .out → 0 < s.count + 1 →
    Step s { s with count := s.count + 1, ups := s.ups + 1 }
  | upFirst (t : T) : s.pc t = .out → s.count + 1 ≤ 0 →
    Step s ({ s with count := s.count + 1, ups := s.ups + 1 }.goto t .upWakes)
  | tries (t : T) : s.pc t = .failed .downTrylock → s.lock = none →
    Step s ({ s with lock := some t }.goto t .trying)
  | prepares (t : T) (k : DownKind) : s.pc t = .failed k →
    Step s ((s.setState t k.state).goto t (.prepared k))
  | enters (t : T) (k : DownKind) : s.pc t = .prepared k → s.lock = none →
    Step s ({ s with
      lock := some t, wait := s.wait ++ [t], sleepers := s.sleepers + 1 }.goto t (.looping k))
  | interrupted (t : T) (k : DownKind) : s.pc t = .looping k →
    Step s ({ s with count := s.count + s.sleepers, sleepers := 0 }.goto t .leaving)
  | takes (t : T) (k : DownKind) : s.pc t = .looping k → 0 ≤ s.count + (s.sleepers - 1) →
    Step s ({ s with
      count := s.count + (s.sleepers - 1), sleepers := 0, downs := s.downs + 1 }.goto t .leaving)
  | sleeps (t : T) (k : DownKind) : s.pc t = .looping k → s.count + (s.sleepers - 1) < 0 →
    Step s ({ s with
      count := s.count + (s.sleepers - 1), sleepers := 1, lock := none }.goto t (.sleeping k))
  | resumes (t : T) (k : DownKind) : s.pc t = .sleeping k ∨ s.pc t = .blocked k →
    Step s (s.goto t (.woken k))
  | signalled (t : T) (k : DownKind) : s.pc t = .sleeping k →
    Step s ((s.setState t .running).goto t (.woken k))
  | blocks (t : T) (k : DownKind) : s.pc t = .sleeping k → (s.task t).state ≠ .running →
    Step s ({ s with
      task := Function.update s.task t { s.task t with array := false } }.goto t (.blocked k))
  | relocks (t : T) (k : DownKind) : s.pc t = .woken k → s.lock = none →
    Step s (({ s with lock := some t }.setState t k.state).goto t (.looping k))
  | leaves (t : T) : s.pc t = .leaving →
    Step s ({ { s with wait := s.wait.erase t }.wakeUpLocked with lock := none }.goto t .returning)
  | returns (t : T) : s.pc t = .returning → Step s ((s.setState t .running).goto t .out)
  | tryWakes (t : T) : s.pc t = .trying → 0 ≤ s.count + (s.sleepers + 1) →
    Step s ({ s with
      count := s.count + (s.sleepers + 1), sleepers := 0, lock := none }.goto t .out).wakeUpLocked
  | tryFails (t : T) : s.pc t = .trying → s.count + (s.sleepers + 1) < 0 →
    Step s ({ s with
      count := s.count + (s.sleepers + 1), sleepers := 0, lock := none }.goto t .out)
  | wakes (t : T) : s.pc t = .upWakes → s.lock = none → Step s (s.wakeUpLocked.goto t .out)
  | wake (t : T) :
    Step s { s with task := Function.update s.task t (s.task t).tryToWakeUp.1 }

variable {s s' : Semaphore T} {a : SemAct T} {t : T} {signal : Bool}

theorem next_cases (h : s.next t signal = some s') : s.Step s' := by
  unfold next at h
  split at h <;> rename_i hpc
  · cases h
  · simp only [Option.ite_none_right_eq_some, Option.some.injEq] at h
    exact h.2 ▸ .tries t hpc h.1
  · exact Option.some.inj h ▸ .prepares t _ hpc
  · simp only [Option.ite_none_right_eq_some, Option.some.injEq] at h
    exact h.2 ▸ .enters t _ hpc h.1
  · cases h
    unfold loop
    split_ifs with hsig hcount
    · exact .interrupted t _ hpc
    · exact .takes t _ hpc hcount
    · exact .sleeps t _ hpc (not_le.1 hcount)
  · cases h
    unfold schedule
    split_ifs with hrun hsig
    · exact .resumes t _ (.inl hpc)
    · exact .signalled t _ hpc
    · exact .blocks t _ hpc hrun
  · simp only [Option.ite_none_right_eq_some, Option.some.injEq] at h
    exact h.2 ▸ .resumes t _ (.inr hpc)
  · simp only [Option.ite_none_right_eq_some, Option.some.injEq] at h
    exact h.2 ▸ .relocks t _ hpc h.1
  · exact Option.some.inj h ▸ .leaves t hpc
  · exact Option.some.inj h ▸ .returns t hpc
  · cases h
    unfold trylock
    by_cases hcount : 0 ≤ s.count + (s.sleepers + 1)
    · exact (if_pos hcount).symm ▸ .tryWakes t hpc hcount
    · exact (if_neg hcount).symm ▸ .tryFails t hpc (not_le.1 hcount)
  · simp only [Option.ite_none_right_eq_some, Option.some.injEq] at h
    exact h.2 ▸ .wakes t hpc h.1

theorem step_cases (h : s.step a = some s') : s.Step s' := by
  cases a with
  | down t k =>
    simp only [step, Option.ite_none_right_eq_some] at h
    obtain ⟨hpc, h⟩ := h
    split_ifs at h with hcount
    · exact Option.some.inj h ▸ .got t hpc hcount
    · exact Option.some.inj h ▸ .fails t k hpc (not_le.1 hcount)
  | up t =>
    simp only [step, Option.ite_none_right_eq_some] at h
    obtain ⟨hpc, h⟩ := h
    split_ifs at h with hcount
    · exact Option.some.inj h ▸ .up t hpc hcount
    · exact Option.some.inj h ▸ .upFirst t hpc (not_lt.1 hcount)
  | next t signal => exact next_cases h
  | wake t => exact Option.some.inj h ▸ .wake t
  | interrupt t =>
    simp only [step] at h
    split at h <;> rename_i hpc
    · exact Option.some.inj h ▸ .resumes t _ (.inr hpc)
    · cases h

/-! ### What is left of the semaphore -/

/-- A task that has taken 1 from `count` and is not among the sleepers yet. -/
def onItsWay : SemPc → ℤ
  | .failed _ | .prepared _ | .trying => 1
  | _ => 0

/-- A task that goes through the loop. -/
def loops : SemPc → ℤ
  | .looping _ => 1
  | _ => 0

theorem onItsWay_nonneg (p : SemPc) : 0 ≤ onItsWay p := by unfold onItsWay; split <;> decide

theorem loops_nonneg (p : SemPc) : 0 ≤ loops p := by unfold loops; split <;> decide

section Counts

variable [Fintype T] {n : ℕ}

/-- `count` is what the semaphore has to give, less what those have taken that do not have it. -/
structure Counts (n : ℕ) (s : Semaphore T) : Prop where
  word : s.count = n + s.ups - s.downs - Tally.tally onItsWay s.pc - s.sleepers
  left : s.downs ≤ n + s.ups
  sleepers_nonneg : 0 ≤ s.sleepers
  sleepers_le : s.sleepers ≤ 1 + Tally.tally loops s.pc

/-- Every step keeps it. -/
theorem Counts.step (h : s.Counts n) (hst : s.Step s') : s'.Counts n := by
  have hway := Tally.tally_nonneg (f := s.pc) onItsWay_nonneg
  have hloop := Tally.tally_nonneg (f := s.pc) loops_nonneg
  obtain ⟨hword, hleft, hnonneg, hle⟩ := h
  cases hst with
  | got t hpc hcount | up t hpc hcount =>
    constructor <;> simp only <;> omega
  | fails t k hpc hcount | upFirst t hpc hcount =>
    constructor <;> simp only [goto, Tally.tally_update, hpc, onItsWay, loops] <;> omega
  | tries t hpc hlock | wakes t hpc hlock =>
    constructor <;>
      simp only [goto, wakeUpLocked, Tally.tally_update, hpc, onItsWay, loops] <;> omega
  | prepares t k hpc =>
    constructor <;> simp only [goto, setState, Tally.tally_update, hpc, onItsWay, loops] <;> omega
  | enters t k hpc hlock =>
    constructor <;> simp only [goto, Tally.tally_update, hpc, onItsWay, loops] <;> omega
  | interrupted t k hpc =>
    constructor <;> simp only [goto, Tally.tally_update, hpc, onItsWay, loops] <;> omega
  | takes t k hpc hcount | sleeps t k hpc hcount =>
    -- `sleepers` is 0 or 1 then, with one task less in the loop
    have hself := Tally.le_tally (f := s.pc) loops_nonneg t
    simp only [hpc, loops] at hself
    constructor <;> simp only [goto, Tally.tally_update, hpc, onItsWay, loops] <;> omega
  | resumes t k hpc =>
    rcases hpc with hpc | hpc <;>
      constructor <;> simp only [goto, Tally.tally_update, hpc, onItsWay, loops] <;> omega
  | signalled t k hpc =>
    constructor <;> simp only [goto, setState, Tally.tally_update, hpc, onItsWay, loops] <;> omega
  | blocks t k hpc hst =>
    constructor <;> simp only [goto, Tally.tally_update, hpc, onItsWay, loops] <;> omega
  | relocks t k hpc hlock =>
    constructor <;> simp only [goto, setState, Tally.tally_update, hpc, onItsWay, loops] <;> omega
  | leaves t hpc | returns t hpc =>
    constructor <;>
      simp only [goto, setState, wakeUpLocked, Tally.tally_update, hpc, onItsWay, loops] <;> omega
  | tryWakes t hpc hcount | tryFails t hpc hcount =>
    constructor <;>
      simp only [goto, wakeUpLocked, Tally.tally_update, hpc, onItsWay, loops] <;> omega
  | wake t =>
    constructor <;> simp only <;> omega

end Counts

/-! ### The wait queue -/

/-- A task that is in the list. -/
def InLoop : SemPc → Prop
  | .looping _ | .sleeping _ | .blocked _ | .woken _ | .leaving => True
  | _ => False

/-- A task that has the lock. -/
def HasLock : SemPc → Prop
  | .looping _ | .leaving | .trying => True
  | _ => False

/-- Who is in the list, who has the lock, and who is in a run queue. -/
structure Places (s : Semaphore T) : Prop where
  nodup : s.wait.Nodup
  mem_iff : ∀ t, t ∈ s.wait ↔ InLoop (s.pc t)
  lock : ∀ t, s.lock = some t → HasLock (s.pc t)
  array : ∀ t k, s.pc t = .blocked k → (s.task t).state = .running → (s.task t).array = true

/-- A task that will go through the loop, or wake the queue. -/
def AwakeAt : SemPc → TaskState → Prop
  | .looping _, _ | .woken _, _ | .leaving, _ | .upWakes, _ => True
  | .sleeping _, x | .blocked _, x => x = .running
  | _, _ => False

/-- **No wakeup is lost.**  If there is something to take and somebody waits, somebody is awake. -/
def Hope (s : Semaphore T) : Prop :=
  s.wait ≠ [] → 0 ≤ s.count → ∃ t, AwakeAt (s.pc t) (s.task t).state

theorem awakeAt_running {p : SemPc} {x : TaskState} (h : AwakeAt p x) : AwakeAt p .running := by
  cases p <;> first | exact h | rfl

theorem awakeAt_of_inLoop {p : SemPc} (h : InLoop p) : AwakeAt p .running := by
  cases p <;> first | exact h.elim | trivial

omit [DecidableEq T] in
/-- Others that stay where they are stay awake, as their `state` changes to running at most. -/
theorem Hope.move (h : s.Hope) (t : T) (hwait : s'.wait ≠ [] → s.wait ≠ [])
    (hcount : 0 ≤ s'.count → 0 ≤ s.count) (hpc : ∀ u, u ≠ t → s'.pc u = s.pc u)
    (htask : ∀ u, u ≠ t → s'.task u = s.task u ∨ (s'.task u).state = .running)
    (ht : AwakeAt (s.pc t) (s.task t).state → AwakeAt (s'.pc t) (s'.task t).state) : s'.Hope := by
  intro hne hpos
  obtain ⟨u, hu⟩ := h (hwait hne) (hcount hpos)
  refine ⟨u, ?_⟩
  rcases eq_or_ne u t with rfl | hut
  · exact ht hu
  rw [hpc u hut]
  rcases htask u hut with heq | hrun
  · rwa [heq]
  · rw [hrun]
    exact awakeAt_running hu

/-- After a wakeup somebody in the list is awake. -/
theorem hope_wakeUpLocked (hmem : ∀ t ∈ s.wait, InLoop (s.pc t)) : s.wakeUpLocked.Hope := by
  intro hne _
  obtain ⟨t, q, hq⟩ := List.exists_cons_of_ne_nil (l := s.wait) hne
  refine ⟨t, ?_⟩
  have hrun : (s.wakeUpLocked.task t).state = .running := by
    rw [wakeUpLocked, hq]
    exact wakeUp_head t q s.task
  rw [hrun]
  exact awakeAt_of_inLoop (hmem t (hq ▸ List.mem_cons_self))

omit [DecidableEq T] in
/-- Somebody is awake. -/
theorem hope_of_awake (h : AwakeAt (s.pc t) (s.task t).state) : s.Hope := fun _ _ => ⟨t, h⟩

omit [DecidableEq T] in
/-- Nothing is to be taken. -/
theorem hope_of_neg (h : s.count < 0) : s.Hope := fun _ hpos => absurd hpos (not_le.2 h)

omit [DecidableEq T] in
/-- One task moves, neither into the list nor out of it. -/
theorem Places.move (h : s.Places) (t : T) (hwait : s'.wait = s.wait)
    (hpc : ∀ u, u ≠ t → s'.pc u = s.pc u) (hin : InLoop (s'.pc t) ↔ InLoop (s.pc t))
    (hlock : s'.lock = s.lock ∧ (HasLock (s.pc t) → HasLock (s'.pc t)) ∨
      ∀ u, s'.lock = some u → u = t ∧ HasLock (s'.pc t))
    (htask : ∀ u, u ≠ t → s'.task u = s.task u ∨ s'.task u = ⟨.running, true⟩)
    (ht : ∀ k, s'.pc t = .blocked k → (s'.task t).state = .running → (s'.task t).array = true) :
    s'.Places where
  nodup := hwait ▸ h.nodup
  mem_iff u := by
    rw [hwait, h.mem_iff]
    rcases eq_or_ne u t with rfl | hne
    · exact hin.symm
    · rw [hpc u hne]
  lock u hu := by
    rcases hlock with ⟨hl, hkeep⟩ | hnew
    · rcases eq_or_ne u t with rfl | hne
      · exact hkeep (h.lock u (hl ▸ hu))
      · exact hpc u hne ▸ h.lock u (hl ▸ hu)
    · obtain ⟨rfl, hhas⟩ := hnew u hu
      exact hhas
  array u k hu hrun := by
    rcases eq_or_ne u t with rfl | hne
    · exact ht k hu hrun
    rcases htask u hne with heq | heq
    · rw [heq] at hrun ⊢
      exact h.array u k (hpc u hne ▸ hu) hrun
    · rw [heq]

/-- What the walk through the list does to a task. -/
theorem wakeUpLocked_task (s : Semaphore T) (u : T) :
    s.wakeUpLocked.task u = s.task u ∨ s.wakeUpLocked.task u = ⟨.running, true⟩ :=
  wakeUp_cases s.wait s.task u

/-- A task gets into the list. -/
theorem Places.enter (h : s.Places) (k : DownKind) (hpc : s.pc t = .prepared k) :
    ({ s with
      lock := some t, wait := s.wait ++ [t], sleepers := s.sleepers + 1 }.goto t
        (.looping k)).Places where
  nodup := by
    refine h.nodup.append (List.nodup_singleton t) ?_
    rw [List.disjoint_singleton, h.mem_iff, hpc]
    exact id
  mem_iff u := by
    change u ∈ s.wait ++ [t] ↔ InLoop (Function.update s.pc t (.looping k) u)
    rw [List.mem_append, List.mem_singleton, h.mem_iff]
    rcases eq_or_ne u t with rfl | hne
    · simp [InLoop]
    · simp [hne]
  lock u hu := by
    obtain rfl : t = u := Option.some.inj hu
    simp [goto, HasLock]
  array u k' hu hrun := by
    rcases eq_or_ne u t with rfl | hne
    · simp [goto] at hu
    · exact h.array u k' ((Function.update_of_ne hne ..).symm.trans hu) hrun

/-- A task gets out of the list, and wakes the others. -/
theorem Places.leave (h : s.Places) (hpc : s.pc t = .leaving) :
    ({ { s with wait := s.wait.erase t }.wakeUpLocked with lock := none }.goto t
      .returning).Places where
  nodup := h.nodup.erase t
  mem_iff u := by
    change u ∈ s.wait.erase t ↔ InLoop (Function.update s.pc t .returning u)
    rw [h.nodup.mem_erase_iff, h.mem_iff]
    rcases eq_or_ne u t with rfl | hne
    · simp [InLoop]
    · simp [hne]
  lock u hu := by cases hu
  array u k hu hrun := by
    rcases eq_or_ne u t with rfl | hne
    · simp [goto] at hu
    have hpcu : s.pc u = .blocked k := (Function.update_of_ne hne ..).symm.trans hu
    rcases wakeUp_cases (s.wait.erase t) s.task u with heq | heq
    · change (wakeUpCommon (s.wait.erase t) s.task u).state = .running at hrun
      change (wakeUpCommon (s.wait.erase t) s.task u).array = true
      rw [heq] at hrun ⊢
      exact h.array u k hpcu hrun
    · change (wakeUpCommon (s.wait.erase t) s.task u).array = true
      rw [heq]

/-- Every step keeps the places. -/
theorem Places.step (h : s.Places) (hst : s.Step s') : s'.Places := by
  have hgoto : ∀ {t : T} {p : SemPc} (u : T), u ≠ t → Function.update s.pc t p u = s.pc u :=
    fun u hne => Function.update_of_ne hne ..
  have htask : ∀ {t : T} {x : SchedTask} (u : T), u ≠ t →
      Function.update s.task t x u = s.task u ∨ Function.update s.task t x u = ⟨.running, true⟩ :=
    fun u hne => .inl (Function.update_of_ne hne ..)
  cases hst with
  | got t hpc _ | up t hpc _ =>
    exact h.move t rfl (fun _ _ => rfl) Iff.rfl (.inl ⟨rfl, id⟩) (fun _ _ => .inl rfl) (h.array t)
  | fails t k hpc _ | upFirst t hpc _ =>
    refine h.move t rfl hgoto ?_ (.inl ⟨rfl, ?_⟩) (fun _ _ => .inl rfl) ?_ <;>
      simp [goto, hpc, InLoop, HasLock]
  | tries t hpc _ =>
    refine h.move t rfl hgoto ?_ (.inr ?_) (fun _ _ => .inl rfl) ?_ <;>
      simp +contextual [goto, hpc, InLoop, HasLock]
  | prepares t k hpc =>
    refine h.move t rfl hgoto ?_ (.inl ⟨rfl, ?_⟩) htask ?_ <;> simp [goto, hpc, InLoop, HasLock]
  | enters t k hpc _ => exact h.enter k hpc
  | interrupted t k hpc | takes t k hpc _ =>
    refine h.move t rfl hgoto ?_ (.inl ⟨rfl, ?_⟩) (fun _ _ => .inl rfl) ?_ <;>
      simp [goto, hpc, InLoop, HasLock]
  | sleeps t k hpc _ =>
    refine h.move t rfl hgoto ?_ (.inr ?_) (fun _ _ => .inl rfl) ?_ <;>
      simp [goto, hpc, InLoop]
  | resumes t k hpc =>
    rcases hpc with hpc | hpc <;>
      refine h.move t rfl hgoto ?_ (.inl ⟨rfl, ?_⟩) (fun _ _ => .inl rfl) ?_ <;>
      simp [goto, hpc, InLoop, HasLock]
  | signalled t k hpc =>
    refine h.move t rfl hgoto ?_ (.inl ⟨rfl, ?_⟩) htask ?_ <;> simp [goto, hpc, InLoop, HasLock]
  | blocks t k hpc hstate =>
    refine h.move t rfl hgoto ?_ (.inl ⟨rfl, ?_⟩) htask ?_ <;>
      simp [goto, hpc, InLoop, HasLock, hstate]
  | relocks t k hpc _ =>
    refine h.move t rfl hgoto ?_ (.inr ?_) htask ?_ <;>
      simp +contextual [goto, setState, hpc, InLoop, HasLock]
  | leaves t hpc => exact h.leave hpc
  | returns t hpc =>
    refine h.move t rfl hgoto ?_ (.inl ⟨rfl, ?_⟩) htask ?_ <;> simp [goto, hpc, InLoop, HasLock]
  | tryWakes t hpc _ =>
    refine h.move t rfl hgoto ?_ (.inr ?_) (fun u _ => wakeUpLocked_task _ u) ?_ <;>
      simp [goto, wakeUpLocked, hpc, InLoop]
  | tryFails t hpc _ =>
    refine h.move t rfl hgoto ?_ (.inr ?_) (fun _ _ => .inl rfl) ?_ <;> simp [goto, hpc, InLoop]
  | wakes t hpc _ =>
    refine h.move t rfl hgoto ?_ (.inl ⟨rfl, ?_⟩) (fun u _ => wakeUpLocked_task _ u) ?_ <;>
      simp [goto, hpc, InLoop, HasLock]
  | wake t =>
    refine h.move t rfl (fun _ _ => rfl) Iff.rfl (.inl ⟨rfl, id⟩) htask ?_
    intro k hpc hrun
    change (Function.update s.task t (s.task t).tryToWakeUp.1 t).state = .running at hrun
    change (Function.update s.task t (s.task t).tryToWakeUp.1 t).array = true
    rw [Function.update_self] at hrun ⊢
    rcases (s.task t).tryToWakeUp_cases with heq | heq
    · rw [heq] at hrun ⊢
      exact h.array t k hpc hrun
    · rw [heq]

/-- The list when a task goes that is not in it. -/
theorem Places.inLoop_goto (h : s.Places) {p : SemPc} (ht : ¬ InLoop (s.pc t)) :
    ∀ u ∈ s.wait, InLoop (Function.update s.pc t p u) := by
  intro u hu
  have hin := (h.mem_iff u).1 hu
  have hne : u ≠ t := fun heq => ht (heq ▸ hin)
  rwa [Function.update_of_ne hne]

/-- Every step keeps the hope. -/
theorem Hope.step (h : s.Hope) (hplaces : s.Places) (hst : s.Step s') : s'.Hope := by
  have hgoto : ∀ {t : T} {p : SemPc} (u : T), u ≠ t → Function.update s.pc t p u = s.pc u :=
    fun u hne => Function.update_of_ne hne ..
  have htask : ∀ {t : T} {x : SchedTask} (u : T), u ≠ t →
      Function.update s.task t x u = s.task u ∨ (Function.update s.task t x u).state = .running :=
    fun u hne => .inl (Function.update_of_ne hne ..)
  cases hst with
  | got t hpc hcount =>
    exact h.move t id (fun hpos => by change 0 ≤ s.count - 1 at hpos; omega) (fun _ _ => rfl)
      (fun _ _ => .inl rfl) id
  | fails t k hpc hcount => exact hope_of_neg hcount
  | up t hpc hcount =>
    exact h.move t id (fun _ => by omega) (fun _ _ => rfl) (fun _ _ => .inl rfl) id
  | upFirst t hpc _ | interrupted t k hpc | takes t k hpc _ =>
    apply hope_of_awake (t := t)
    simp [goto, AwakeAt]
  | enters t k hpc _ | relocks t k hpc _ =>
    apply hope_of_awake (t := t)
    simp [goto, AwakeAt]
  | resumes t k hpc | signalled t k hpc =>
    apply hope_of_awake (t := t)
    simp [goto, AwakeAt]
  | tries t hpc _ =>
    refine h.move t id id hgoto (fun _ _ => .inl rfl) ?_
    simp [goto, hpc, AwakeAt]
  | prepares t k hpc =>
    refine h.move t id id hgoto htask ?_
    simp [goto, hpc, AwakeAt]
  | sleeps t k hpc hcount | tryFails t hpc hcount => exact hope_of_neg hcount
  | blocks t k hpc hstate =>
    refine h.move t id id hgoto htask ?_
    simp [goto, hpc, AwakeAt, hstate]
  | leaves t hpc =>
    have hmem : ∀ u ∈ s.wait.erase t, InLoop (Function.update s.pc t .returning u) := by
      intro u hu
      obtain ⟨hne, hu⟩ := hplaces.nodup.mem_erase_iff.1 hu
      rw [Function.update_of_ne hne]
      exact (hplaces.mem_iff u).1 hu
    exact hope_wakeUpLocked (s := { s with wait := s.wait.erase t }.goto t .returning) hmem
  | returns t hpc =>
    refine h.move t id id hgoto htask ?_
    simp [goto, hpc, AwakeAt]
  | tryWakes t hpc _ =>
    exact hope_wakeUpLocked (hplaces.inLoop_goto (by simp [hpc, InLoop]))
  | wakes t hpc _ =>
    have hmem := hplaces.inLoop_goto (p := .out) (by simp [hpc, InLoop] : ¬ InLoop (s.pc t))
    exact hope_wakeUpLocked (s := s.goto t .out) hmem
  | wake t =>
    refine h.move t id id (fun _ _ => rfl) htask fun hawake => ?_
    change AwakeAt (s.pc t) (Function.update s.task t (s.task t).tryToWakeUp.1 t).state
    rw [Function.update_self, SchedTask.tryToWakeUp_state]
    exact awakeAt_running hawake

/-! ### Runs -/

variable [Fintype T] {n : ℕ}

/-- The invariant. -/
structure Inv (n : ℕ) (s : Semaphore T) : Prop where
  counts : s.Counts n
  places : s.Places
  hope : s.Hope

theorem inv_init (n : ℕ) : (machine T n).init.Inv n where
  counts := by
    have hway : Tally.tally onItsWay (machine T n).init.pc = 0 := Tally.tally_eq_zero fun _ => rfl
    have hloop : Tally.tally loops (machine T n).init.pc = 0 := Tally.tally_eq_zero fun _ => rfl
    constructor <;> (try rw [hway]) <;> (try rw [hloop]) <;> simp [machine]
  places := ⟨List.nodup_nil, fun _ => by simp [machine, InLoop], nofun, nofun⟩
  hope := fun hne => absurd rfl hne

/-- Every reachable state has the invariant. -/
theorem inv_of_exec {as : List (SemAct T)}
    (hrun : (machine T n).exec (machine T n).init as = some s) : s.Inv n :=
  (Machine.run_anyStep_iff.2 hrun).invariant
    (fun _ _ _ hI _ hst => ⟨hI.counts.step (step_cases hst), hI.places.step (step_cases hst),
      hI.hope.step hI.places (step_cases hst)⟩) (inv_init n)

/-- No task in one of the functions can go on. -/
def Stuck (s : Semaphore T) : Prop := ∀ t, ∀ signal : Bool, (s.next t signal).isNone

instance (s : Semaphore T) : Decidable s.Stuck :=
  inferInstanceAs (Decidable (∀ t, ∀ signal : Bool, (s.next t signal).isNone))

omit [Fintype T] in
/-- Who cannot go on is outside, or has been taken out of the run queue and not been woken. -/
theorem Stuck.cases (h : s.Stuck) (hplaces : s.Places) (t : T) :
    s.pc t = .out ∨ (∃ k, s.pc t = .blocked k) ∧ (s.task t).state ≠ .running := by
  have hlock : s.lock = none := by
    by_contra hne
    obtain ⟨u, hu⟩ := Option.ne_none_iff_exists'.1 hne
    have hhas := hplaces.lock u hu
    have hstuck := Option.isNone_iff_eq_none.1 (h u false)
    unfold HasLock at hhas
    unfold next at hstuck
    split at hhas <;> simp_all
  have hstuck := Option.isNone_iff_eq_none.1 (h t false)
  unfold next at hstuck
  split at hstuck <;> rename_i hpc
  · exact .inl hpc
  case h_7 k =>
    refine .inr ⟨⟨k, hpc⟩, fun hrun => ?_⟩
    rw [if_pos (hplaces.array t k hpc hrun)] at hstuck
    cases hstuck
  all_goals first | (rw [if_pos hlock] at hstuck; cases hstuck) | cases hstuck

/-- One task has the semaphore, and another one waits for it. -/
def oneWaits : List (SemAct Bool) :=
  [.down false .down, .down true .downInterruptible, .next true false, .next true false,
    .next true false, .next true false]

end Semaphore

end LxApi32
