import LxApi32.Lib.Machine
import LxApi32.Lib.Places
import Mathlib.Data.BitVec

/-!
# Tasklets

`tasklet_schedule` links a tasklet into a list of the CPU, and the softirq of the CPU runs it.  A
tasklet has no lock: `TASKLET_STATE_SCHED` says that somebody has it in a list, or is about to link
it, and `TASKLET_STATE_RUN` that a CPU runs it.  Between any two instructions on these bits there
can be interrupts, which schedule tasklets themselves, and the other CPUs go on.  `tasklet_vec` and
`tasklet_hi_vec` of a CPU are handled alike, one after the other; here they count as two CPUs.

* `Tasklets.serialized` : no two CPUs run a tasklet at the same time, and `BUG` is not reached.
* `Tasklets.runs_each_time` : a tasklet runs once for each time that it is scheduled.
* `Tasklets.will_run` : a tasklet that has yet to run is in a list that a softirq will come to.
* `Tasklets.killed_never_runs` : after `tasklet_kill` it does not run until it is scheduled again.
* `Tasklets.disabled_never_runs` : neither does it after `tasklet_disable` until it is enabled.
-/

namespace LxApi32

/-- Where a CPU is in `tasklet_action`. -/
inductive TaskletPc (T : Type*)
  /-- Not in `tasklet_action`. -/
  | out
  /-- The softirq is no longer pending, and `tasklet_action` begins. -/
  | take
  /-- At the top of the loop. -/
  | loop
  /-- At `tasklet_trylock`. -/
  | trylock (t : T)
  /-- It reads `count`. -/
  | count (t : T)
  /-- At `test_and_clear_bit`. -/
  | clear (t : T)
  /-- In `func`, or at `tasklet_unlock` behind it. -/
  | func (t : T)
  /-- At `tasklet_unlock`, with a tasklet that is disabled. -/
  | unlock (t : T)
  /-- It puts the tasklet back. -/
  | back (t : T)
  /-- In `BUG`. -/
  | bug
  deriving DecidableEq, Repr

/-- What a CPU has. -/
structure TaskletCpu (T : Type*) where
  /-- `tasklet_vec` -/
  vec : List T
  /-- `list` of `tasklet_action`. -/
  list : List T
  /-- `TASKLET_SOFTIRQ` is pending. -/
  raised : Bool
  /-- Where it is. -/
  pc : TaskletPc T

/-- The tasklets and the CPUs. -/
structure Tasklets (C T : Type*) where
  /-- Those with `TASKLET_STATE_SCHED`. -/
  sched : Finset T
  /-- Those with `TASKLET_STATE_RUN`. -/
  run : Finset T
  /-- `count` -/
  count : T → BitVec 32
  /-- Those in front of `__tasklet_schedule`. -/
  entered : List T
  /-- Those in `tasklet_unlock_wait` of `tasklet_kill`. -/
  killing : List T
  /-- Those at `clear_bit` of `tasklet_kill`. -/
  waited : List T
  /-- The CPUs. -/
  cpu : C → TaskletCpu T

/-- What happens. -/
inductive TaskletAct (C T : Type*)
  /-- `test_and_set_bit` in `tasklet_schedule`. -/
  | schedule (t : T)
  /-- `__tasklet_schedule` on a CPU. -/
  | link (c : C) (t : T)
  /-- `__do_softirq` finds the softirq pending. -/
  | softirq (c : C)
  /-- The next step of `tasklet_action`. -/
  | action (c : C)
  /-- `tasklet_disable_nosync` -/
  | disable (t : T)
  /-- `tasklet_enable` -/
  | enable (t : T)
  /-- `test_and_set_bit` in `tasklet_kill`. -/
  | kill (t : T)
  /-- `tasklet_unlock_wait` of `tasklet_kill` ends. -/
  | unlockWait (t : T)
  /-- `clear_bit` in `tasklet_kill`. -/
  | clearBit (t : T)
  deriving DecidableEq, Repr

namespace TaskletPc

variable {T : Type*}

/-- The tasklet that has been taken from the list and not run. -/
def held : TaskletPc T → List T
  | trylock t | count t | clear t | unlock t | back t => [t]
  | _ => []

/-- The tasklet whose `TASKLET_STATE_RUN` the CPU has set. -/
def locked : TaskletPc T → List T
  | count t | clear t | func t | unlock t => [t]
  | _ => []

end TaskletPc

namespace Tasklets

variable {C T : Type*} [DecidableEq C] [DecidableEq T]

/-- What a CPU has, changes. -/
def set (s : Tasklets C T) (c : C) (d : TaskletCpu T) : Tasklets C T :=
  { s with cpu := Function.update s.cpu c d }

/-- `tasklet_schedule` -/
def taskletSchedule (s : Tasklets C T) (t : T) : Tasklets C T :=
  if t ∈ s.sched then s
  else { s with sched := insert t s.sched, entered := t :: s.entered }

/-- `__tasklet_schedule` -/
def rawTaskletSchedule (s : Tasklets C T) (c : C) (t : T) : Tasklets C T :=
  { s with entered := s.entered.erase t }.set c
    { s.cpu c with vec := t :: (s.cpu c).vec, raised := true }

/-- One step of `tasklet_action` -/
def taskletAction (s : Tasklets C T) (c : C) : Option (Tasklets C T) :=
  let d := s.cpu c
  match d.pc with
  | .out | .bug => none
  | .take => some (s.set c { d with list := d.vec, vec := [], pc := .loop })
  | .loop =>
    match d.list with
    | [] => some (s.set c { d with pc := .out })
    | t :: list => some (s.set c { d with list := list, pc := .trylock t })
  | .trylock t =>
    if t ∈ s.run then some (s.set c { d with pc := .back t })
    else some ({ s with run := insert t s.run }.set c { d with pc := .count t })
  | .count t =>
    if s.count t = 0 then some (s.set c { d with pc := .clear t })
    else some (s.set c { d with pc := .unlock t })
  | .clear t =>
    if t ∈ s.sched then
      some ({ s with sched := s.sched.erase t }.set c { d with pc := .func t })
    else some (s.set c { d with pc := .bug })
  | .func t => some ({ s with run := s.run.erase t }.set c { d with pc := .loop })
  | .unlock t => some ({ s with run := s.run.erase t }.set c { d with pc := .back t })
  | .back t => some (s.set c { d with vec := t :: d.vec, raised := true, pc := .loop })

/-- The step function. -/
def act (s : Tasklets C T) : TaskletAct C T → Option (Tasklets C T)
  | .schedule t => some (s.taskletSchedule t)
  | .link c t => if t ∈ s.entered then some (s.rawTaskletSchedule c t) else none
  | .softirq c =>
    if (s.cpu c).pc = .out ∧ (s.cpu c).raised then
      some (s.set c { s.cpu c with raised := false, pc := .take })
    else none
  | .action c => s.taskletAction c
  | .disable t => some { s with count := Function.update s.count t (s.count t + 1) }
  | .enable t => some { s with count := Function.update s.count t (s.count t - 1) }
  | .kill t =>
    if t ∈ s.sched then none
    else some { s with sched := insert t s.sched, killing := t :: s.killing }
  | .unlockWait t =>
    if t ∈ s.killing ∧ t ∉ s.run then
      some { s with killing := s.killing.erase t, waited := t :: s.waited }
    else none
  | .clearBit t =>
    if t ∈ s.waited then
      some { s with sched := s.sched.erase t, waited := s.waited.erase t }
    else none

/-- `tasklet_init` of every tasklet, with `count` as it is declared. -/
def machine (C : Type*) [DecidableEq C] (count : T → BitVec 32) :
    Machine (Tasklets C T) (TaskletAct C T) where
  init := ⟨∅, ∅, count, [], [], [], fun _ => ⟨[], [], false, .out⟩⟩
  step := act

/-- The tasklet whose function a step calls. -/
def calls (s : Tasklets C T) : TaskletAct C T → Option T
  | .action c =>
    match (s.cpu c).pc with
    | .clear t => if t ∈ s.sched then some t else none
    | _ => none
  | _ => none

variable {s s' : Tasklets C T} {a : TaskletAct C T} {c x : C} {t u : T} {d : TaskletCpu T}
  {count : T → BitVec 32}

/-! ### Steps -/

/-- All that a step can do. -/
inductive Stepped (s : Tasklets C T) : TaskletAct C T → Tasklets C T → Prop
  | again (t : T) (ht : t ∈ s.sched) : Stepped s (.schedule t) s
  | schedule (t : T) (ht : t ∉ s.sched) : Stepped s (.schedule t)
      { s with sched := insert t s.sched, entered := t :: s.entered }
  | link (c : C) (t : T) (ht : t ∈ s.entered) : Stepped s (.link c t) (s.rawTaskletSchedule c t)
  | softirq (c : C) (hpc : (s.cpu c).pc = .out) (hraised : (s.cpu c).raised = true) :
      Stepped s (.softirq c) (s.set c { s.cpu c with raised := false, pc := .take })
  | take (c : C) (hpc : (s.cpu c).pc = .take) : Stepped s (.action c)
      (s.set c { s.cpu c with list := (s.cpu c).vec, vec := [], pc := .loop })
  | leave (c : C) (hpc : (s.cpu c).pc = .loop) (hlist : (s.cpu c).list = []) :
      Stepped s (.action c) (s.set c { s.cpu c with pc := .out })
  | next (c : C) (t : T) (l : List T) (hpc : (s.cpu c).pc = .loop)
      (hlist : (s.cpu c).list = t :: l) : Stepped s (.action c)
      (s.set c { s.cpu c with list := l, pc := .trylock t })
  | busy (c : C) (t : T) (hpc : (s.cpu c).pc = .trylock t) (ht : t ∈ s.run) :
      Stepped s (.action c) (s.set c { s.cpu c with pc := .back t })
  | lock (c : C) (t : T) (hpc : (s.cpu c).pc = .trylock t) (ht : t ∉ s.run) :
      Stepped s (.action c) ({ s with run := insert t s.run }.set c { s.cpu c with pc := .count t })
  | enabled (c : C) (t : T) (hpc : (s.cpu c).pc = .count t) (ht : s.count t = 0) :
      Stepped s (.action c) (s.set c { s.cpu c with pc := .clear t })
  | disabled (c : C) (t : T) (hpc : (s.cpu c).pc = .count t) (ht : s.count t ≠ 0) :
      Stepped s (.action c) (s.set c { s.cpu c with pc := .unlock t })
  | clear (c : C) (t : T) (hpc : (s.cpu c).pc = .clear t) (ht : t ∈ s.sched) :
      Stepped s (.action c)
      ({ s with sched := s.sched.erase t }.set c { s.cpu c with pc := .func t })
  | bug (c : C) (t : T) (hpc : (s.cpu c).pc = .clear t) (ht : t ∉ s.sched) :
      Stepped s (.action c) (s.set c { s.cpu c with pc := .bug })
  | done (c : C) (t : T) (hpc : (s.cpu c).pc = .func t) : Stepped s (.action c)
      ({ s with run := s.run.erase t }.set c { s.cpu c with pc := .loop })
  | unlock (c : C) (t : T) (hpc : (s.cpu c).pc = .unlock t) : Stepped s (.action c)
      ({ s with run := s.run.erase t }.set c { s.cpu c with pc := .back t })
  | back (c : C) (t : T) (hpc : (s.cpu c).pc = .back t) : Stepped s (.action c)
      (s.set c { s.cpu c with vec := t :: (s.cpu c).vec, raised := true, pc := .loop })
  | disable (t : T) : Stepped s (.disable t)
      { s with count := Function.update s.count t (s.count t + 1) }
  | enable (t : T) : Stepped s (.enable t)
      { s with count := Function.update s.count t (s.count t - 1) }
  | kill (t : T) (ht : t ∉ s.sched) : Stepped s (.kill t)
      { s with sched := insert t s.sched, killing := t :: s.killing }
  | unlockWait (t : T) (ht : t ∈ s.killing) (hrun : t ∉ s.run) : Stepped s (.unlockWait t)
      { s with killing := s.killing.erase t, waited := t :: s.waited }
  | clearBit (t : T) (ht : t ∈ s.waited) : Stepped s (.clearBit t)
      { s with sched := s.sched.erase t, waited := s.waited.erase t }

theorem stepped_action (hst : s.taskletAction c = some s') : Stepped s (.action c) s' := by
  unfold taskletAction at hst
  dsimp only at hst
  split at hst
  next => cases hst
  next => cases hst
  next hpc =>
    cases hst
    exact .take c hpc
  next hpc =>
    split at hst
    next hlist =>
      cases hst
      exact .leave c hpc hlist
    next t l hlist =>
      cases hst
      exact .next c t l hpc hlist
  next t hpc =>
    split at hst
    next ht =>
      cases hst
      exact .busy c t hpc ht
    next ht =>
      cases hst
      exact .lock c t hpc ht
  next t hpc =>
    split at hst
    next ht =>
      cases hst
      exact .enabled c t hpc ht
    next ht =>
      cases hst
      exact .disabled c t hpc ht
  next t hpc =>
    split at hst
    next ht =>
      cases hst
      exact .clear c t hpc ht
    next ht =>
      cases hst
      exact .bug c t hpc ht
  next t hpc =>
    cases hst
    exact .done c t hpc
  next t hpc =>
    cases hst
    exact .unlock c t hpc
  next t hpc =>
    cases hst
    exact .back c t hpc

theorem stepped (hst : s.act a = some s') : Stepped s a s' := by
  cases a with
  | schedule t =>
    cases hst
    unfold taskletSchedule
    split
    next ht => exact .again t ht
    next ht => exact .schedule t ht
  | link c t =>
    simp only [Tasklets.act, Option.ite_none_right_eq_some, Option.some.injEq] at hst
    obtain ⟨ht, rfl⟩ := hst
    exact .link c t ht
  | softirq c =>
    simp only [Tasklets.act, Option.ite_none_right_eq_some, Option.some.injEq] at hst
    obtain ⟨⟨hpc, hraised⟩, rfl⟩ := hst
    exact .softirq c hpc hraised
  | action c => exact stepped_action hst
  | disable t =>
    cases hst
    exact .disable t
  | enable t =>
    cases hst
    exact .enable t
  | kill t =>
    simp only [Tasklets.act, Option.ite_none_left_eq_some, Option.some.injEq] at hst
    obtain ⟨ht, rfl⟩ := hst
    exact .kill t ht
  | unlockWait t =>
    simp only [Tasklets.act, Option.ite_none_right_eq_some, Option.some.injEq] at hst
    obtain ⟨⟨ht, hrun⟩, rfl⟩ := hst
    exact .unlockWait t ht hrun
  | clearBit t =>
    simp only [Tasklets.act, Option.ite_none_right_eq_some, Option.some.injEq] at hst
    obtain ⟨ht, rfl⟩ := hst
    exact .clearBit t ht

/-! ### The bits -/

/-- Who may have a tasklet that is scheduled. -/
inductive Place (C : Type*)
  /-- `tasklet_schedule` -/
  | entered
  /-- `tasklet_vec` of a CPU. -/
  | vec (c : C)
  /-- `list` of `tasklet_action` on a CPU. -/
  | list (c : C)
  /-- `tasklet_action` on a CPU, for the tasklet that it looks at. -/
  | held (c : C)
  /-- `tasklet_kill`, waiting. -/
  | killing
  /-- `tasklet_kill`, done with waiting. -/
  | waited
  deriving DecidableEq

/-- The tasklets at a place. -/
def lists (s : Tasklets C T) : Place C → List T
  | .entered => s.entered
  | .vec c => (s.cpu c).vec
  | .list c => (s.cpu c).list
  | .held c => (s.cpu c).pc.held
  | .killing => s.killing
  | .waited => s.waited

omit [DecidableEq T] in
@[simp] theorem set_self (s : Tasklets C T) (c : C) (d : TaskletCpu T) : (s.set c d).cpu c = d :=
  Function.update_self ..

omit [DecidableEq T] in
theorem set_of_ne (s : Tasklets C T) (d : TaskletCpu T) (hne : x ≠ c) :
    (s.set c d).cpu x = s.cpu x := Function.update_of_ne hne ..

omit [DecidableEq C] [DecidableEq T] in
/-- The lists do not depend on the bits. -/
theorem lists_bits (s : Tasklets C T) (sched run : Finset T) (r : Place C) :
    ({ s with sched := sched, run := run } : Tasklets C T).lists r = s.lists r := by
  cases r <;> rfl

omit [DecidableEq T] in
/-- Where a CPU does not change a list, and elsewhere. -/
theorem lists_set {r : Place C} (hvec : r = .vec c → d.vec = (s.cpu c).vec)
    (hlist : r = .list c → d.list = (s.cpu c).list)
    (hheld : r = .held c → d.pc.held = (s.cpu c).pc.held) : (s.set c d).lists r = s.lists r := by
  cases r with
  | vec x =>
    rcases eq_or_ne x c with rfl | hne
    · simpa only [lists, set_self] using hvec rfl
    · simp only [lists, set_of_ne s d hne]
  | list x =>
    rcases eq_or_ne x c with rfl | hne
    · simpa only [lists, set_self] using hlist rfl
    · simp only [lists, set_of_ne s d hne]
  | held x =>
    rcases eq_or_ne x c with rfl | hne
    · simpa only [lists, set_self] using hheld rfl
    · simp only [lists, set_of_ne s d hne]
  | entered | killing | waited => rfl

omit [DecidableEq T] in
theorem locked_set (hx : x = c → d.pc.locked = (s.cpu c).pc.locked) :
    ((s.set c d).cpu x).pc.locked = (s.cpu x).pc.locked := by
  rcases eq_or_ne x c with rfl | hne
  · rw [set_self]
    exact hx rfl
  · rw [set_of_ne s d hne]

/-- What is true of a CPU. -/
structure CpuOk (d : TaskletCpu T) : Prop where
  raised : d.vec ≠ [] → d.raised = true ∨ d.pc = .take
  list : d.pc = .out ∨ d.pc = .take → d.list = []
  bug : d.pc ≠ .bug

/-- What is true in every state. -/
structure Inv (s : Tasklets C T) : Prop where
  sched : Places.Marked s.sched s.lists
  run : Places.Marked s.run fun c => (s.cpu c).pc.locked
  cpu : ∀ c, CpuOk (s.cpu c)
  waited : ∀ t ∈ s.waited, t ∉ s.run

theorem inv_init : (machine C count).init.Inv where
  sched := ⟨fun _ => none, ⟨fun p t => by cases p <;> exact iff_of_false nofun nofun,
    fun p => by cases p <;> exact List.nodup_nil⟩, fun t => by simp [machine]⟩
  run := ⟨fun _ => none, ⟨fun p t => iff_of_false nofun nofun, fun p => List.nodup_nil⟩,
    fun t => by simp [machine]⟩
  cpu _ := ⟨fun hne => absurd rfl hne, fun _ => rfl, nofun⟩
  waited := nofun

omit [DecidableEq C] [DecidableEq T] in
theorem Inv.sched_of_held (hI : s.Inv) (ht : t ∈ (s.cpu c).pc.held) : t ∈ s.sched :=
  hI.sched.mem (show t ∈ s.lists (.held c) from ht)

/-- `TASKLET_STATE_SCHED` after a step. -/
theorem Inv.sched_step (hI : s.Inv) (hst : Stepped s a s') : Places.Marked s'.sched s'.lists := by
  cases hst with
  | again t ht => exact hI.sched
  | schedule t ht => exact hI.sched.set (q := .entered) ht rfl fun r hr => by cases r <;> trivial
  | link c t ht =>
    refine hI.sched.move (p := .entered) (q := .vec c) ht nofun rfl ?_ fun r hp hq => ?_
    · simp [rawTaskletSchedule, lists]
    · have hent : ({ s with entered := s.entered.erase t } : Tasklets C T).lists r = s.lists r := by
        cases r <;> trivial
      rw [← hent]
      exact lists_set (fun h => absurd h hq) (fun _ => rfl) fun _ => rfl
  | softirq c hpc hraised =>
    exact hI.sched.congr fun r => lists_set (fun _ => rfl) (fun _ => rfl) fun _ => by rw [hpc]; rfl
  | take c hpc =>
    refine hI.sched.splice (p := .vec c) (q := .list c) nofun ((hI.cpu c).list (.inr hpc)) ?_ ?_
      fun r hp hq => ?_
    · simp [lists]
    · simp [lists]
    · exact lists_set (fun h => absurd h hp) (fun h => absurd h hq) fun _ => by rw [hpc]; rfl
  | leave c hpc hlist =>
    exact hI.sched.congr fun r => lists_set (fun _ => rfl) (fun _ => rfl) fun _ => by rw [hpc]; rfl
  | next c t l hpc hlist =>
    refine hI.sched.move (p := .list c) (q := .held c) (t := t) ?_ nofun ?_ ?_
      fun r hp hq => lists_set (fun _ => rfl) (fun h => absurd h hp) fun h => absurd h hq
    · simp [lists, hlist]
    · simp [lists, hlist]
    · simp [lists, hpc, TaskletPc.held]
  | busy c t hpc ht =>
    exact hI.sched.congr fun r => lists_set (fun _ => rfl) (fun _ => rfl) fun _ => by rw [hpc]; rfl
  | lock c t hpc ht =>
    refine hI.sched.congr fun r => ?_
    rw [← lists_bits s s.sched (insert t s.run) r]
    exact lists_set (fun _ => rfl) (fun _ => rfl) fun _ => by simp only [hpc]; rfl
  | enabled c t hpc ht =>
    exact hI.sched.congr fun r => lists_set (fun _ => rfl) (fun _ => rfl) fun _ => by rw [hpc]; rfl
  | disabled c t hpc ht =>
    exact hI.sched.congr fun r => lists_set (fun _ => rfl) (fun _ => rfl) fun _ => by rw [hpc]; rfl
  | clear c t hpc ht =>
    refine hI.sched.clear (p := .held c) (t := t) ?_ ?_ fun r hr => ?_
    · simp [lists, hpc, TaskletPc.held]
    · simp [lists, hpc, TaskletPc.held]
    · rw [← lists_bits s (s.sched.erase t) s.run r]
      exact lists_set (fun _ => rfl) (fun _ => rfl) fun h => absurd h hr
  | bug c t hpc ht => exact absurd (hI.sched_of_held (c := c) (by rw [hpc]; exact .head _)) ht
  | done c t hpc =>
    refine hI.sched.congr fun r => ?_
    rw [← lists_bits s s.sched (s.run.erase t) r]
    exact lists_set (fun _ => rfl) (fun _ => rfl) fun _ => by simp only [hpc]; rfl
  | unlock c t hpc =>
    refine hI.sched.congr fun r => ?_
    rw [← lists_bits s s.sched (s.run.erase t) r]
    exact lists_set (fun _ => rfl) (fun _ => rfl) fun _ => by simp only [hpc]; rfl
  | back c t hpc =>
    refine hI.sched.move (p := .held c) (q := .vec c) (t := t) ?_ nofun ?_ ?_
      fun r hp hq => lists_set (fun h => absurd h hq) (fun _ => rfl) fun h => absurd h hp
    · simp [lists, hpc, TaskletPc.held]
    · simp [lists, hpc, TaskletPc.held]
    · simp [lists]
  | disable t | enable t => exact hI.sched.congr fun r => by cases r <;> rfl
  | kill t ht => exact hI.sched.set (q := .killing) ht rfl fun r hr => by cases r <;> trivial
  | unlockWait t ht hrun =>
    exact hI.sched.move (p := .killing) (q := .waited) ht nofun rfl rfl fun r hp hq => by
      cases r <;> trivial
  | clearBit t ht =>
    have hin : t ∈ s.lists .waited := ht
    exact hI.sched.clear hin rfl fun r hr => by cases r <;> trivial

/-- `TASKLET_STATE_RUN` after a step. -/
theorem Inv.run_step (hI : s.Inv) (hst : Stepped s a s') :
    Places.Marked s'.run fun c => (s'.cpu c).pc.locked := by
  cases hst with
  | again | schedule | disable | enable | kill | unlockWait | clearBit => exact hI.run
  | link c t ht => exact hI.run.congr fun x => locked_set fun _ => rfl
  | softirq c hpc | take c hpc | leave c hpc | next c t l hpc | busy c t hpc | enabled c t hpc
  | disabled c t hpc | back c t hpc =>
    exact hI.run.congr fun x => locked_set fun _ => by rw [hpc]; rfl
  | clear c t hpc ht => exact hI.run.congr fun x => locked_set fun _ => by simp only [hpc]; rfl
  | bug c t hpc ht => exact absurd (hI.sched_of_held (c := c) (by rw [hpc]; exact .head _)) ht
  | lock c t hpc ht =>
    refine hI.run.set (q := c) ht ?_ fun x hne => by simp only [set_of_ne _ _ hne]
    simp [hpc, TaskletPc.locked]
  | done c t hpc | unlock c t hpc =>
    refine hI.run.clear (p := c) ?_ ?_ fun x hne => by simp only [set_of_ne _ _ hne]
    · simp [hpc, TaskletPc.locked]
    · simp [hpc, TaskletPc.locked]

omit [DecidableEq T] in
theorem cpuOk_set (hcpu : ∀ x, CpuOk (s.cpu x)) (hd : CpuOk d) (x : C) :
    CpuOk ((s.set c d).cpu x) := by
  rcases eq_or_ne x c with rfl | hne
  · rwa [set_self]
  · rw [set_of_ne s d hne]
    exact hcpu x

omit [DecidableEq C] [DecidableEq T] in
/-- In the loop the softirq is pending if there is something in the list. -/
theorem Inv.raised_of_ne (hI : s.Inv) (hpc : (s.cpu c).pc ≠ .take) (hvec : (s.cpu c).vec ≠ []) :
    (s.cpu c).raised = true := ((hI.cpu c).raised hvec).resolve_right hpc

theorem Inv.cpu_step (hI : s.Inv) (hst : Stepped s a s') : ∀ x, CpuOk (s'.cpu x) := by
  cases hst with
  | again | schedule | disable | enable | kill | unlockWait | clearBit => exact hI.cpu
  | link c t ht => exact cpuOk_set hI.cpu ⟨fun _ => .inl rfl, (hI.cpu c).list, (hI.cpu c).bug⟩
  | softirq c hpc => exact cpuOk_set hI.cpu ⟨fun _ => .inr rfl,
      fun _ => (hI.cpu c).list (.inl hpc), nofun⟩
  | take c hpc => exact cpuOk_set hI.cpu ⟨fun hne => absurd rfl hne, fun h => h.elim nofun nofun,
      nofun⟩
  | leave c hpc hlist => exact cpuOk_set hI.cpu ⟨fun hvec =>
      .inl (hI.raised_of_ne (hpc ▸ nofun) hvec), fun _ => hlist, nofun⟩
  | bug c t hpc ht => exact absurd (hI.sched_of_held (c := c) (by rw [hpc]; exact .head _)) ht
  | back c t hpc => exact cpuOk_set hI.cpu ⟨fun _ => .inl rfl, fun h => h.elim nofun nofun, nofun⟩
  | next c t l hpc | busy c t hpc | lock c t hpc | enabled c t hpc | disabled c t hpc
  | clear c t hpc | done c t hpc | unlock c t hpc =>
    exact cpuOk_set hI.cpu ⟨fun hvec => .inl (hI.raised_of_ne (hpc ▸ nofun) hvec),
      fun h => h.elim nofun nofun, nofun⟩

theorem Inv.waited_step (hI : s.Inv) (hst : Stepped s a s') : ∀ t ∈ s'.waited, t ∉ s'.run := by
  cases hst with
  | lock c t hpc ht =>
    intro u hu hrun
    rcases Finset.mem_insert.1 hrun with rfl | hrun
    case inr => exact hI.waited u hu hrun
    -- it has the tasklet that `tasklet_kill` has
    have hheld : u ∈ s.lists (.held c) := by simp [lists, hpc, TaskletPc.held]
    exact nomatch hI.sched.unique hheld (show u ∈ s.lists .waited from hu)
  | done c t hpc | unlock c t hpc =>
    exact fun u hu hrun => hI.waited u hu (Finset.mem_of_mem_erase hrun)
  | unlockWait t ht hrun =>
    intro u hu
    rcases List.mem_cons.1 hu with rfl | hu
    · exact hrun
    · exact hI.waited u hu
  | clearBit t ht => exact fun u hu => hI.waited u (List.mem_of_mem_erase hu)
  | _ => exact hI.waited

theorem Inv.step (hI : s.Inv) (hst : Stepped s a s') : s'.Inv :=
  ⟨hI.sched_step hst, hI.run_step hst, hI.cpu_step hst, hI.waited_step hst⟩

theorem inv_of_exec {as : List (TaskletAct C T)}
    (hrun : (machine C count).exec (machine C count).init as = some s) : s.Inv :=
  (Machine.run_anyStep_iff.2 hrun).invariant (fun _ _ _ hI _ hst => hI.step (stepped hst)) inv_init

/-- **Serialized.**  No two CPUs are in the function of a tasklet at the same time, whoever
schedules it, and none finds in its list a tasklet that is not scheduled. -/
theorem serialized {as : List (TaskletAct C T)}
    (hrun : (machine C count).exec (machine C count).init as = some s) :
    (∀ c, (s.cpu c).pc ≠ .bug) ∧
      ∀ c c' t, (s.cpu c).pc = .func t → (s.cpu c').pc = .func t → c = c' := by
  have hI := inv_of_exec hrun
  refine ⟨fun c => (hI.cpu c).bug, fun c c' t hc hc' => ?_⟩
  have hlocked : ∀ {x}, (s.cpu x).pc = .func t → t ∈ (s.cpu x).pc.locked := fun hx => by
    rw [hx]
    exact .head _
  exact hI.run.unique (hlocked hc) (hlocked hc')

/-- A CPU that has begun with the function of a tasklet. -/
theorem serialized_alone : ∃ s : Tasklets Unit Unit, (s.cpu ()).pc = .func () ∧
    (∀ c, (s.cpu c).pc ≠ .bug) ∧
      ∀ c c' t, (s.cpu c).pc = .func t → (s.cpu c').pc = .func t → c = c' := by
  have hrun : (machine Unit fun _ : Unit => 0).exec (machine Unit fun _ : Unit => 0).init
      [.schedule (), .link () (), .softirq (), .action (), .action (), .action (), .action (),
        .action ()] = some _ := rfl
  exact ⟨_, rfl, serialized hrun⟩

/-! ### Once for each time -/

/-- The tasklet is scheduled, and has yet to run. -/
def Due (s : Tasklets C T) (t : T) : Prop := t ∈ s.sched ∧ t ∉ s.killing ∧ t ∉ s.waited

instance (s : Tasklets C T) (t : T) : Decidable (s.Due t) := inferInstanceAs (Decidable (_ ∧ _))

/-- The tasklet, if it has yet to run. -/
def waiting (t : T) (s : Tasklets C T) : List T := if s.Due t then [t] else []

/-- A call of `tasklet_schedule` that finds the tasklet not scheduled. -/
def scheduledBy (t : T) (s : Tasklets C T) (a : TaskletAct C T) : List T :=
  if a = .schedule t ∧ t ∉ s.sched then [t] else []

/-- A call of the function. -/
def calledBy (t : T) (s : Tasklets C T) (a : TaskletAct C T) : List T :=
  if s.calls a = some t then [t] else []

omit [DecidableEq C] [DecidableEq T] in
/-- Who has a tasklet in a list other than those of `tasklet_kill`, has one that is due. -/
theorem Inv.due (hI : s.Inv) {p : Place C} (ht : t ∈ s.lists p) (hk : p ≠ .killing)
    (hw : p ≠ .waited) : s.Due t :=
  ⟨hI.sched.mem ht, fun h => hk (hI.sched.unique ht (show t ∈ s.lists .killing from h)),
    fun h => hw (hI.sched.unique ht (show t ∈ s.lists .waited from h))⟩

omit [DecidableEq C] in
theorem waiting_congr (h : s'.Due t ↔ s.Due t) : waiting t s' = waiting t s := by
  simp only [waiting, h]

/-- A step that neither schedules the tasklet nor calls its function. -/
theorem waiting_quiet (hput : a ≠ .schedule t ∨ t ∈ s.sched) (hget : s.calls a ≠ some t)
    (h : s'.Due t ↔ s.Due t) :
    waiting t s ++ scheduledBy t s a = calledBy t s a ++ waiting t s' := by
  have hnone : scheduledBy t s a = [] := if_neg fun h => hput.elim (fun hne => hne h.1) h.2
  rw [hnone, calledBy, if_neg hget, List.append_nil, List.nil_append, waiting_congr h]

omit [DecidableEq C] in
theorem calls_ne (hpc : ∀ c, a = .action c → (s.cpu c).pc ≠ .clear t) : s.calls a ≠ some t := by
  cases a with
  | action c =>
    intro hcall
    simp only [calls] at hcall
    split at hcall
    next u hu =>
      split at hcall
      next =>
        cases hcall
        exact hpc c rfl hu
      next => cases hcall
    next => cases hcall
  | _ => nofun

/-- What is scheduled or has yet to run, has been called or has yet to run then. -/
theorem waiting_step (hI : s.Inv) (t : T) (hst : Stepped s a s') :
    waiting t s ++ scheduledBy t s a = calledBy t s a ++ waiting t s' := by
  have hcall : ∀ {c pc}, (s.cpu c).pc = pc → pc ≠ .clear t → s.calls (.action c) ≠ some t :=
    fun hpc hne => calls_ne fun x hx => by
      cases hx
      rwa [hpc]
  cases hst with
  | again u hu =>
    refine waiting_quiet ?_ nofun Iff.rfl
    rcases eq_or_ne u t with rfl | hne
    · exact .inr hu
    · exact .inl fun h => hne (TaskletAct.schedule.inj h)
  | schedule u hu =>
    rcases eq_or_ne u t with rfl | hne
    · have hno : ¬s.Due u := fun h => hu h.1
      have hdue : ({ s with sched := insert u s.sched, entered := u :: s.entered } :
          Tasklets C T).Due u :=
        ⟨Finset.mem_insert_self .., fun h => hu (hI.sched.mem (show u ∈ s.lists .killing from h)),
          fun h => hu (hI.sched.mem (show u ∈ s.lists .waited from h))⟩
      have hget : s.calls (.schedule u) ≠ some u := nofun
      rw [waiting, if_neg hno, scheduledBy, if_pos ⟨rfl, hu⟩, calledBy, if_neg hget, waiting,
        if_pos hdue]
    · refine waiting_quiet (.inl fun h => hne (TaskletAct.schedule.inj h)) nofun ?_
      simp only [Due, Finset.mem_insert, hne.symm, false_or]
  | link c u hu => exact waiting_quiet (.inl nofun) nofun Iff.rfl
  | softirq c hpc => exact waiting_quiet (.inl nofun) nofun Iff.rfl
  | take c hpc | leave c hpc | next c u l hpc | busy c u hpc | lock c u hpc | enabled c u hpc
  | disabled c u hpc | done c u hpc | unlock c u hpc | back c u hpc =>
    exact waiting_quiet (.inl nofun) (hcall hpc nofun) Iff.rfl
  | clear c u hpc hu =>
    rcases eq_or_ne u t with rfl | hne
    · have hheld : u ∈ s.lists (.held c) := by simp [lists, hpc, TaskletPc.held]
      have hget : s.calls (.action c) = some u := by simp only [calls, hpc, if_pos hu]
      have hno : ¬(({ s with sched := s.sched.erase u } : Tasklets C T).set c
          { s.cpu c with pc := .func u }).Due u := fun h => Finset.notMem_erase u s.sched h.1
      rw [waiting, if_pos (hI.due hheld nofun nofun), calledBy, if_pos hget, waiting, if_neg hno]
      rfl
    · refine waiting_quiet (.inl nofun) (hcall hpc fun h => hne (TaskletPc.clear.inj h)) ?_
      simp only [Due, set, Finset.mem_erase, hne.symm, ne_eq, not_false_eq_true, true_and]
  | bug c u hpc hu => exact absurd (hI.sched_of_held (c := c) (by rw [hpc]; exact .head _)) hu
  | disable u => exact waiting_quiet (.inl nofun) nofun Iff.rfl
  | enable u => exact waiting_quiet (.inl nofun) nofun Iff.rfl
  | kill u hu =>
    refine waiting_quiet (.inl nofun) nofun ?_
    rcases eq_or_ne u t with rfl | hne
    · exact iff_of_false (fun h => h.2.1 List.mem_cons_self) fun h => hu h.1
    · simp only [Due, Finset.mem_insert, List.mem_cons, hne.symm, false_or]
  | unlockWait u hu hrun =>
    refine waiting_quiet (.inl nofun) nofun ?_
    rcases eq_or_ne u t with rfl | hne
    · exact iff_of_false (fun h => h.2.2 List.mem_cons_self) fun h => h.2.1 hu
    · simp only [Due, List.mem_cons, hne.symm, false_or, List.mem_erase_of_ne hne.symm]
  | clearBit u hu =>
    refine waiting_quiet (.inl nofun) nofun ?_
    rcases eq_or_ne u t with rfl | hne
    · exact iff_of_false (fun h => Finset.notMem_erase u s.sched h.1) fun h => h.2.2 hu
    · simp only [Due, Finset.mem_erase, hne.symm, ne_eq, not_false_eq_true, true_and,
        List.mem_erase_of_ne hne.symm]

/-- **Once for each time.**  A tasklet runs once for each call of `tasklet_schedule` that finds it
not scheduled, except for the last of them while it has yet to run. -/
theorem runs_each_time {as : List (TaskletAct C T)} (t : T)
    (hrun : (machine C count).exec (machine C count).init as = some s) :
    (machine C count).collect (scheduledBy t) (machine C count).init as =
      (machine C count).collect (calledBy t) (machine C count).init as ++ waiting t s :=
  (Machine.run_anyStep_iff.2 hrun).conserve (q := waiting t)
    (fun _ _ _ hI _ hst => ⟨hI.step (stepped hst), waiting_step hI t (stepped hst)⟩) inv_init

/-- A tasklet that is scheduled again while it runs. -/
theorem runs_each_time_again : ∃ s : Tasklets Unit Unit, waiting () s = [()] ∧
    ∃ as, (machine Unit fun _ : Unit => 0).collect (scheduledBy ())
        (machine Unit fun _ : Unit => 0).init as =
      (machine Unit fun _ : Unit => 0).collect (calledBy ())
        (machine Unit fun _ : Unit => 0).init as ++ waiting () s := by
  have hrun : (machine Unit fun _ : Unit => 0).exec (machine Unit fun _ : Unit => 0).init
      [.schedule (), .link () (), .schedule (), .softirq (), .action (), .action (), .action (),
        .action (), .action (), .schedule ()] = some _ := rfl
  exact ⟨_, by decide, _, runs_each_time () hrun⟩

/-- **It will run.**  A tasklet that has yet to run is with a call of `tasklet_schedule`, or on a
CPU whose softirq is pending, or that is in `tasklet_action`. -/
theorem will_run {as : List (TaskletAct C T)}
    (hrun : (machine C count).exec (machine C count).init as = some s) (ht : s.Due t) :
    t ∈ s.entered ∨ ∃ c, (s.cpu c).raised ∧ t ∈ (s.cpu c).vec ∨
      (s.cpu c).pc ≠ .out ∧ t ∈ (s.cpu c).vec ++ (s.cpu c).list ++ (s.cpu c).pc.held := by
  have hI := inv_of_exec hrun
  obtain ⟨p, hp⟩ := hI.sched.exists_mem ht.1
  cases p with
  | entered => exact .inl hp
  | vec c =>
    rcases (hI.cpu c).raised (List.ne_nil_of_mem hp) with hraised | hpc
    · exact .inr ⟨c, .inl ⟨hraised, hp⟩⟩
    · exact .inr ⟨c, .inr ⟨hpc ▸ nofun, List.mem_append_left _ (List.mem_append_left _ hp)⟩⟩
  | list c =>
    refine .inr ⟨c, .inr ⟨fun hpc => ?_, List.mem_append_left _ (List.mem_append_right _ hp)⟩⟩
    have hlist : t ∈ (s.cpu c).list := hp
    rw [(hI.cpu c).list (.inl hpc)] at hlist
    cases hlist
  | held c =>
    refine .inr ⟨c, .inr ⟨fun hpc => ?_, List.mem_append_right _ hp⟩⟩
    have hheld : t ∈ (s.cpu c).pc.held := hp
    rw [hpc] at hheld
    cases hheld
  | killing => exact absurd hp ht.2.1
  | waited => exact absurd hp ht.2.2

/-- A tasklet in the list of a CPU. -/
theorem will_run_linked : ∃ s : Tasklets Unit Unit, s.Due () ∧
    (() ∈ s.entered ∨ ∃ c, (s.cpu c).raised ∧ () ∈ (s.cpu c).vec ∨
      (s.cpu c).pc ≠ .out ∧ () ∈ (s.cpu c).vec ++ (s.cpu c).list ++ (s.cpu c).pc.held) := by
  have hrun : (machine Unit fun _ : Unit => 0).exec (machine Unit fun _ : Unit => 0).init
      [.schedule (), .link () ()] = some _ := rfl
  exact ⟨_, by decide, will_run hrun (by decide)⟩

/-! ### Tasklets that do not run -/

/-- A tasklet that neither runs nor will run. -/
structure Idle (s : Tasklets C T) (t : T) : Prop where
  due : ¬s.Due t
  run : t ∉ s.run

theorem Idle.step (hI : s.Inv) (hi : s.Idle t) (hst : Stepped s a s') (hne : a ≠ .schedule t) :
    s'.Idle t := by
  refine ⟨?_, ?_⟩
  · have hstep := waiting_step hI t hst
    rw [waiting, if_neg hi.due, scheduledBy, if_neg fun h => hne h.1] at hstep
    have hnone : waiting t s' = [] := (List.append_eq_nil_iff.1 hstep.symm).2
    intro hdue
    rw [waiting, if_pos hdue] at hnone
    cases hnone
  · cases hst with
    | lock c u hpc hu =>
      intro hrun
      rcases Finset.mem_insert.1 hrun with rfl | hrun
      · have hheld : t ∈ s.lists (.held c) := by simp [lists, hpc, TaskletPc.held]
        exact hi.due (hI.due hheld nofun nofun)
      · exact hi.run hrun
    | done c u hpc | unlock c u hpc => exact fun hrun => hi.run (Finset.mem_of_mem_erase hrun)
    | _ => exact hi.run

theorem Idle.exec {as : List (TaskletAct C T)} (hI : s.Inv) (hi : s.Idle t)
    (hrun : (machine C count).exec s as = some s') (hno : .schedule t ∉ as) :
    s'.Inv ∧ s'.Idle t := by
  induction as generalizing s with
  | nil =>
    cases hrun
    exact ⟨hI, hi⟩
  | cons a as ih =>
    obtain ⟨s₁, hst, hrest⟩ := Machine.exec_cons_eq_some.1 hrun
    have hst' : Stepped s a s₁ := stepped hst
    exact ih (hI.step hst') (hi.step hI hst' fun heq => hno (heq ▸ List.mem_cons_self)) hrest
      fun hin => hno (List.mem_cons_of_mem a hin)

/-- **Killed.**  From the end of `tasklet_kill` the tasklet is on no CPU, neither running nor in a
list, until somebody schedules it again. -/
theorem killed_never_runs {as bs : List (TaskletAct C T)} {s₁ : Tasklets C T}
    (h₁ : (machine C count).exec (machine C count).init as = some s₁)
    (h₂ : (machine C count).exec s₁ (.clearBit t :: bs) = some s) (hno : .schedule t ∉ bs) (c : C) :
    (s.cpu c).pc ≠ .func t ∧ t ∉ (s.cpu c).vec ++ (s.cpu c).list ++ (s.cpu c).pc.held := by
  have hI₁ := inv_of_exec h₁
  obtain ⟨s₀, hst, hrest⟩ := Machine.exec_cons_eq_some.1 h₂
  have hst' : Stepped s₁ (.clearBit t) s₀ := stepped hst
  have hidle : s₀.Idle t := by
    cases hst' with
    | clearBit _ ht => exact ⟨fun h => Finset.notMem_erase t s₁.sched h.1, hI₁.waited t ht⟩
  obtain ⟨hI, hi⟩ := hidle.exec (hI₁.step hst') hrest hno
  refine ⟨fun hpc => hi.run (hI.run.mem (p := c) (by rw [hpc]; exact .head _)), fun hin => ?_⟩
  rcases List.mem_append.1 hin with hin | hin
  · rcases List.mem_append.1 hin with hin | hin
    · exact hi.due (hI.due (p := .vec c) hin nofun nofun)
    · exact hi.due (hI.due (p := .list c) hin nofun nofun)
  · exact hi.due (hI.due (p := .held c) hin nofun nofun)

/-- A tasklet that has run, is killed. -/
theorem killed_never_runs_idle : ∃ s : Tasklets Unit Unit, (s.cpu ()).pc ≠ .func () ∧
    () ∉ (s.cpu ()).vec ++ (s.cpu ()).list ++ (s.cpu ()).pc.held := by
  obtain ⟨s₁, h₁, s, h₂⟩ : ∃ s₁, (machine Unit fun _ : Unit => 0).exec
      (machine Unit fun _ : Unit => 0).init [.schedule (), .link () (), .softirq (), .action (),
        .action (), .action (), .action (), .action (), .action (), .kill (), .unlockWait ()] =
          some s₁ ∧
      ∃ s, (machine Unit fun _ : Unit => 0).exec s₁ [.clearBit (), .action ()] = some s :=
    ⟨_, rfl, _, rfl⟩
  exact ⟨s, killed_never_runs h₁ h₂ (by decide) ()⟩

/-- No CPU is in the function of the tasklet, or past the test of `count`. -/
def Quiet (s : Tasklets C T) (t : T) : Prop :=
  ∀ c, (s.cpu c).pc ≠ .clear t ∧ (s.cpu c).pc ≠ .func t

omit [DecidableEq T] in
theorem Quiet.set (hq : s.Quiet t) (hd : d.pc ≠ .clear t ∧ d.pc ≠ .func t) :
    (s.set c d).Quiet t := by
  intro x
  rcases eq_or_ne x c with rfl | hne
  · rwa [set_self]
  · rw [set_of_ne s d hne]
    exact hq x

theorem Quiet.step (hq : s.Quiet t) (hcount : s.count t ≠ 0) (hst : Stepped s a s') :
    s'.Quiet t := by
  cases hst with
  | again | schedule | disable | enable | kill | unlockWait | clearBit => exact hq
  | link c u hu => exact Quiet.set (s := { s with entered := s.entered.erase u }) hq (hq c)
  | softirq c hpc | take c hpc | leave c hpc | next c u l hpc | busy c u hpc | disabled c u hpc
  | bug c u hpc | back c u hpc => exact hq.set ⟨nofun, nofun⟩
  | lock c u hpc hu => exact Quiet.set (s := { s with run := insert u s.run }) hq ⟨nofun, nofun⟩
  | done c u hpc | unlock c u hpc =>
    exact Quiet.set (s := { s with run := s.run.erase u }) hq ⟨nofun, nofun⟩
  | enabled c u hpc hu =>
    refine hq.set ⟨fun h => ?_, nofun⟩
    cases TaskletPc.clear.inj h
    exact hcount hu
  | clear c u hpc hu =>
    refine Quiet.set (s := { s with sched := s.sched.erase u }) hq ⟨nofun, fun h => ?_⟩
    cases TaskletPc.func.inj h
    exact (hq c).1 hpc

theorem Quiet.exec {as : List (TaskletAct C T)} (hq : s.Quiet t)
    (hcount : (machine C count).Always (fun s => s.count t ≠ 0) s as)
    (hrun : (machine C count).exec s as = some s') : s'.Quiet t := by
  induction as generalizing s with
  | nil =>
    cases hrun
    exact hq
  | cons a as ih =>
    obtain ⟨s₁, hst, hrest⟩ := Machine.exec_cons_eq_some.1 hrun
    exact ih (hq.step hcount.1 (stepped hst)) (hcount.2 s₁ hst) hrest

/-- **Disabled.**  When `tasklet_unlock_wait` has found the tasklet not running, as it does at the
end of `tasklet_disable`, its function is not called while `count` is not zero. -/
theorem disabled_never_runs {as bs : List (TaskletAct C T)} {s₁ : Tasklets C T}
    (h₁ : (machine C count).exec (machine C count).init as = some s₁) (hrun : t ∉ s₁.run)
    (hcount : (machine C count).Always (fun s => s.count t ≠ 0) s₁ bs)
    (h₂ : (machine C count).exec s₁ bs = some s) (c : C) : (s.cpu c).pc ≠ .func t := by
  have hI := inv_of_exec h₁
  have hquiet : s₁.Quiet t := fun x =>
    ⟨fun hpc => hrun (hI.run.mem (p := x) (by rw [hpc]; exact .head _)),
      fun hpc => hrun (hI.run.mem (p := x) (by rw [hpc]; exact .head _))⟩
  exact (hquiet.exec hcount h₂ c).2

/-- A tasklet that is scheduled while it is disabled. -/
theorem disabled_never_runs_scheduled : ∃ s : Tasklets Unit Unit, s.Due () ∧
    (s.cpu ()).pc ≠ .func () := by
  obtain ⟨s₁, h₁, hrun, hcount, s, h₂, hdue⟩ : ∃ s₁, (machine Unit fun _ : Unit => 0).exec
      (machine Unit fun _ : Unit => 0).init [.disable (), .schedule (), .link () (),
        .softirq ()] = some s₁ ∧ () ∉ s₁.run ∧
      (machine Unit fun _ : Unit => 0).Always (fun s => s.count () ≠ 0) s₁ [.action (), .action (),
        .action (), .action ()] ∧
      ∃ s, (machine Unit fun _ : Unit => 0).exec s₁ [.action (), .action (), .action (),
        .action ()] = some s ∧ s.Due () := by
    refine ⟨_, rfl, by decide, ?_, _, rfl, by decide⟩
    repeat' (refine ⟨by decide, fun _ hs => ?_⟩; cases hs)
    exact (by decide : (1 : BitVec 32) ≠ 0)
  exact ⟨s, hdue, disabled_never_runs h₁ hrun hcount h₂ ()⟩

end Tasklets

end LxApi32
