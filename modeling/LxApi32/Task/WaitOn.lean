import LxApi32.Daemon.Packet
import LxApi32.Lib.Machine
import Mathlib.Data.List.Basic
import Mathlib.Logic.Function.Basic

/-!
# Waiting for an id

A thread in `LX_WaitOn` is in `lx_wait_list`, and sleeps in `DevBlock` or, if there is a current
task, in its own wait queue.  `LX_RunOn` wakes the waiters for an id.  Once there is a current task,
`LX_ReschedWaitOn` sets `LXWF_WAITCONTINUE` for the waiters in `DevBlock` and wakes them by the same
`DevRun`: they find the flag and wait again, in their wait queue.

A waiter that both have reached before it runs finds the flag, and the wake is lost.

* `Waits.always_kept_iff` : the calls of all waiters that `LX_RunOn` has woken return by their own
  steps exactly if `LX_RunOn` wakes no waiter that has the flag, and `LX_ReschedWaitOn` sets it for
  none that `LX_RunOn` has woken and that has not tested it yet.

Both functions hold `lx_wait_list_lock` while they go through the list.  A change of `flags` is one
step.
-/

namespace LxApi32

/-- What has ended a sleep. -/
inductive WakeCause
  /-- `LX_RunOn` -/
  | runOn
  /-- `LX_ReschedWaitOn` -/
  | resched
  /-- The time, or the system. -/
  | ended
  deriving DecidableEq, Repr

/-- Where a waiter is in `LX_WaitOn`. -/
inductive WaitPc
  /-- It has not called. -/
  | idle
  /-- `wi` is filled. -/
  | entered
  /-- The wait queue is initialised. -/
  | ready
  /-- At the beginning of the loop. -/
  | top
  /-- `LXWF_WAITCONTINUE` is cleared. -/
  | cleared
  /-- In `DevBlock`, `sleep_on` or `sleep_on_timeout`. -/
  | asleep
  /-- Its sleep has ended, but it has not run since. -/
  | released (cause : WakeCause)
  /-- Before the test of `LXWF_WAITCONTINUE`. -/
  | testing
  /-- Behind the loop. -/
  | leaving
  /-- The call has returned. -/
  | returned
  deriving DecidableEq, Repr

/-- A call of `LX_WaitOn` with its `struct lx_waitid`. -/
structure Waiter where
  /-- `id` -/
  id : ULONG
  /-- `timeout` -/
  timeout : ULONG
  /-- `blckflags` -/
  blckflags : ULONG
  /-- `LXWF_ISWQ` -/
  isWq : Bool
  /-- `LXWF_WAITCONTINUE` -/
  cont : Bool
  /-- `prev_current_available` -/
  prev : Bool
  /-- `rc` -/
  rc : ULONG
  /-- Where it is. -/
  pc : WaitPc
  /-- `LX_RunOn` has woken it. -/
  woken : Bool
  deriving DecidableEq, Repr

/-- Who holds `lx_wait_list_lock`, and the rest of the list that is to be gone through. -/
inductive Walk
  /-- Nobody. -/
  | free
  /-- `LX_RunOn` -/
  | runOn (id : ULONG) (rest : List ℕ)
  /-- `LX_RunOn` has found a waiter for the id and tested its `LXWF_ISWQ`. -/
  | runOnWake (id : ULONG) (w : ℕ) (isWq : Bool) (rest : List ℕ)
  /-- `LX_ReschedWaitOn` -/
  | resched (rest : List ℕ)
  /-- `LX_ReschedWaitOn` has found a waiter without `LXWF_ISWQ`. -/
  | reschedMark (w : ℕ) (rest : List ℕ)
  /-- `LX_ReschedWaitOn` has set its `LXWF_WAITCONTINUE`. -/
  | reschedRun (w : ℕ) (rest : List ℕ)
  deriving DecidableEq, Repr

/-- `LX_ReschedWaitOn` does not hold the lock. -/
def Walk.NoResched : Walk → Prop
  | .free | .runOn .. | .runOnWake .. => True
  | .resched .. | .reschedMark .. | .reschedRun .. => False

/-- The state. -/
structure Waits where
  /-- The calls of `LX_WaitOn`. -/
  waiters : ℕ → Waiter
  /-- `lx_wait_list` -/
  list : List ℕ
  /-- `lx_wait_list_lock` -/
  walk : Walk
  /-- `lx_current_available` -/
  available : Bool
  /-- The calls of `LX_ReschedWaitOn` that have found it set and wait for the lock. -/
  reschedCalls : ℕ

/-- What happens. -/
inductive WaitAct
  /-- `LX_WaitOn` is called. -/
  | enter (w : ℕ) (id timeout flags : ULONG)
  /-- A waiter takes its next step. -/
  | run (w : ℕ)
  /-- The time of a waiter is over, or the system ends its sleep; `DevBlock` returns `rc`. -/
  | ends (w : ℕ) (rc : ULONG)
  /-- `lx_current_available` changes. -/
  | setAvailable (b : Bool)
  /-- `LX_RunOn` takes the lock. -/
  | runOn (id : ULONG)
  /-- `LX_ReschedWaitOn` is called. -/
  | reschedCall
  /-- `LX_ReschedWaitOn` takes the lock. -/
  | resched
  /-- The one that holds the lock takes its next step. -/
  | walk
  deriving DecidableEq, Repr

namespace Waiter

/-- A waiter that has not called. -/
def fresh : Waiter := ⟨0, 0, 0, false, false, false, 0, .idle, false⟩

/-- The next step of a waiter, if it does not sleep. -/
def next (available : Bool) (p : Waiter) : Option Waiter :=
  match p.pc with
  | .entered => some { p with isWq := available, pc := .ready }
  | .ready => some { p with pc := .top }
  | .top => some { p with cont := false, pc := .cleared }
  | .cleared => some { p with pc := .asleep }
  | .released _ =>
    -- behind `DevBlock`
    if p.isWq = false ∧ available = true ∧ p.prev = false then
      some { p with isWq := true, prev := true, pc := .testing }
    else some { p with pc := .testing }
  | .testing => some { p with pc := if p.cont then .top else .leaving }
  | .leaving => some { p with pc := .returned }
  | .idle | .asleep | .returned => none

/-- `wake_up_all` of its wait queue -/
def wakeUpAll (p : Waiter) : Waiter :=
  if p.pc = .asleep ∧ p.isWq = true then
    { p with
      pc := .released .runOn, woken := true
      rc := if 0 ≤ p.timeout.toInt then 0 else p.rc }
  else p

/-- `DevRun` -/
def devRun (cause : WakeCause) (id : ULONG) (p : Waiter) : Waiter :=
  if p.pc = .asleep ∧ p.isWq = false ∧ p.id = id then
    { p with pc := .released cause, woken := p.woken || cause = .runOn, rc := 0 }
  else p

/-- `LX_RunOn` comes to a waiter that `LX_ReschedWaitOn` has released. -/
def wakeReleased (p : Waiter) : Waiter :=
  if p.pc = .released .resched then { p with woken := true } else p

/-- Its sleep ends otherwise. -/
def ends (rc : ULONG) (p : Waiter) : Waiter :=
  { p with
    pc := .released .ended
    rc := if p.isWq = false then rc else if 0 ≤ p.timeout.toInt then 1 else p.rc }

/-- It is behind its sleep, and will not sleep again. -/
def Clear (p : Waiter) : Prop :=
  match p.pc with
  | .released _ | .testing => p.cont = false
  | .leaving | .returned => True
  | _ => False

/-- It has not tested `LXWF_WAITCONTINUE` since its sleep. -/
def Untested (p : Waiter) : Prop := p.pc = .testing ∨ ∃ cause, p.pc = .released cause

end Waiter

namespace Waits

/-- The waiters after `LX_RunOn` has woken the waiter `w`. -/
def runOnWake (waiters : ℕ → Waiter) (id : ULONG) (w : ℕ) (isWq : Bool) : ℕ → Waiter :=
  let waiters' :=
    if isWq then Function.update waiters w (waiters w).wakeUpAll
    else fun v => (waiters v).devRun .runOn id
  Function.update waiters' w (waiters' w).wakeReleased

/-- The next step of the one that holds the lock. -/
def walkStep (s : Waits) : Option Waits :=
  match s.walk with
  | .free => none
  | .runOn _ [] => some { s with walk := .free }
  | .runOn id (w :: rest) =>
    if id = (s.waiters w).id then some { s with walk := .runOnWake id w (s.waiters w).isWq rest }
    else some { s with walk := .runOn id rest }
  | .runOnWake id w isWq rest =>
    some { s with waiters := runOnWake s.waiters id w isWq, walk := .runOn id rest }
  | .resched [] => some { s with walk := .free }
  | .resched (w :: rest) =>
    if (s.waiters w).isWq = false then some { s with walk := .reschedMark w rest }
    else some { s with walk := .resched rest }
  | .reschedMark w rest =>
    some { s with
      waiters := Function.update s.waiters w { s.waiters w with cont := true }
      walk := .reschedRun w rest }
  | .reschedRun w rest =>
    some { s with
      waiters := fun v => (s.waiters v).devRun .resched (s.waiters w).id
      walk := .resched rest }

/-- A waiter has taken a step, by which it may get into the list or out of it. -/
def move (s : Waits) (w : ℕ) (p : Waiter) : Waits :=
  { s with
    waiters := Function.update s.waiters w p
    list := match (s.waiters w).pc with
      | .ready => w :: s.list
      | .leaving => s.list.erase w
      | _ => s.list }

/-- The next step of a waiter; for a change of the list it takes the lock. -/
def runStep (s : Waits) (w : ℕ) : Option Waits :=
  let pc := (s.waiters w).pc
  if (pc = .ready ∨ pc = .leaving) ∧ s.walk ≠ .free then none
  else ((s.waiters w).next s.available).map (s.move w)

/-- The step function. -/
def step (s : Waits) : WaitAct → Option Waits
  | .enter w id timeout flags =>
    if (s.waiters w).pc = .idle then
      let p : Waiter := ⟨id, timeout, flags, false, false, s.available, 0, .entered, false⟩
      some { s with waiters := Function.update s.waiters w p }
    else none
  | .run w => s.runStep w
  | .ends w rc =>
    if (s.waiters w).pc = .asleep then
      some { s with waiters := Function.update s.waiters w ((s.waiters w).ends rc) }
    else none
  | .setAvailable b => some { s with available := b }
  | .runOn id => if s.walk = .free then some { s with walk := .runOn id s.list } else none
  | .reschedCall =>
    if s.available then some { s with reschedCalls := s.reschedCalls + 1 } else none
  | .resched =>
    if s.walk = .free ∧ 0 < s.reschedCalls then
      some { s with walk := .resched s.list, reschedCalls := s.reschedCalls - 1 }
    else none
  | .walk => s.walkStep

/-- Nobody waits. -/
def initial : Waits := ⟨fun _ => .fresh, [], .free, false, 0⟩

/-- The machine of the waiters. -/
def machine : Machine Waits WaitAct := ⟨initial, step⟩

/-- The call of a waiter returns by its own steps, as soon as the lock is free. -/
def WillReturn (s : Waits) (w : ℕ) : Prop :=
  ∃ n s', machine.exec { s with walk := .free } (List.replicate n (.run w)) = some s' ∧
    (s'.waiters w).pc = .returned

/-- The calls of all that `LX_RunOn` has woken return by their own steps. -/
def Kept (s : Waits) : Prop := ∀ w, (s.waiters w).woken = true → s.WillReturn w

/-- The waiters that `LX_RunOn` wakes when it has come to `w`. -/
def Wakes (s : Waits) (id : ULONG) (w : ℕ) (isWq : Bool) (v : ℕ) : Prop :=
  v = w ∧ (s.waiters v).pc = .released .resched ∨
  (s.waiters v).pc = .asleep ∧
    if isWq then v = w ∧ (s.waiters v).isWq = true
    else (s.waiters v).isWq = false ∧ (s.waiters v).id = id

/-- A step of `LX_RunOn` wakes no waiter with `LXWF_WAITCONTINUE`, and a step of `LX_ReschedWaitOn`
sets it for none that `LX_RunOn` has woken and that has not tested it. -/
def Apart (s : Waits) (a : WaitAct) : Prop :=
  a = .walk →
    (∀ id w isWq rest, s.walk = .runOnWake id w isWq rest →
      ∀ v, s.Wakes id w isWq v → (s.waiters v).cont = false) ∧
    (∀ w rest, s.walk = .reschedMark w rest →
      (s.waiters w).woken = true → ¬ (s.waiters w).Untested)

end Waits

/-! ### One waiter -/

namespace Waiter

variable {p p' : Waiter} {available : Bool} {id : ULONG} {cause : WakeCause}

/-- Whether a waiter will sleep again is settled with its sleep. -/
theorem clear_next (h : p.next available = some p') : p'.Clear ↔ p.Clear := by
  unfold next at h
  cases hpc : p.pc with
  | idle => rw [hpc] at h; cases h
  | asleep => rw [hpc] at h; cases h
  | returned => rw [hpc] at h; cases h
  | released cause =>
    simp only [hpc] at h
    split_ifs at h <;> cases h <;> simp [Clear, hpc]
  | testing =>
    simp only [hpc, Option.some.injEq] at h
    subst h
    cases hcont : p.cont <;> simp [Clear, hpc, hcont]
  | leaving => simp only [hpc] at h; cases h; simp [Clear, hpc]
  | entered => simp only [hpc] at h; cases h; simp [Clear, hpc]
  | ready => simp only [hpc] at h; cases h; simp [Clear, hpc]
  | top => simp only [hpc] at h; cases h; simp [Clear, hpc]
  | cleared => simp only [hpc] at h; cases h; simp [Clear, hpc]

theorem woken_next (h : p.next available = some p') : p'.woken = p.woken := by
  unfold next at h
  split at h <;> (try split_ifs at h) <;> cases h <;> rfl

theorem cont_next (h : p.next available = some p') (hcont : p.cont = false) : p'.cont = false := by
  unfold next at h
  split at h <;> (try split_ifs at h) <;> cases h <;> first | exact hcont | rfl

/-- The number of steps to the return of a call that will not sleep again. -/
def remaining (p : Waiter) : ℕ :=
  match p.pc with
  | .released _ => 3
  | .testing => 2
  | .leaving => 1
  | _ => 0

/-- A waiter that will not sleep again has returned or takes a step towards that. -/
theorem Clear.next (h : p.Clear) (available : Bool) : p.pc = .returned ∨
    ∃ p', p.next available = some p' ∧ p.remaining = p'.remaining + 1 := by
  unfold Clear at h
  cases hpc : p.pc with
  | released cause =>
    refine .inr ?_
    simp only [Waiter.next, hpc]
    split_ifs
    · exact ⟨_, rfl, by simp [remaining, hpc]⟩
    · exact ⟨_, rfl, by simp [remaining, hpc]⟩
  | testing =>
    simp only [hpc] at h
    exact .inr ⟨_, by simp only [Waiter.next, hpc]; rfl, by simp [remaining, hpc, h]⟩
  | leaving => exact .inr ⟨_, by simp only [Waiter.next, hpc]; rfl, by simp [remaining, hpc]⟩
  | returned => exact .inl rfl
  | idle => rw [hpc] at h; exact h.elim
  | entered => rw [hpc] at h; exact h.elim
  | ready => rw [hpc] at h; exact h.elim
  | top => rw [hpc] at h; exact h.elim
  | cleared => rw [hpc] at h; exact h.elim
  | asleep => rw [hpc] at h; exact h.elim

end Waiter

/-! ### The return of a call -/

namespace Waits

variable {s s' : Waits} {a : WaitAct} {w v : ℕ}

@[simp]
theorem move_waiters_self {p : Waiter} : (s.move w p).waiters w = p := Function.update_self ..

theorem move_walk {p : Waiter} : (s.move w p).walk = s.walk := rfl

/-- The steps of a waiter while nobody holds the lock. -/
theorem runStep_free (h : s.walk = .free) :
    s.runStep w = ((s.waiters w).next s.available).map (s.move w) :=
  if_neg fun hlock => hlock.2 h

theorem clear_exec {n : ℕ} (h : s.walk = .free)
    (hrun : machine.exec s (List.replicate n (.run w)) = some s') :
    (s'.waiters w).Clear ↔ (s.waiters w).Clear := by
  induction n generalizing s with
  | zero => cases hrun; exact Iff.rfl
  | succ n ih =>
    obtain ⟨s₁, hs, hrun⟩ := Option.bind_eq_some_iff.1 hrun
    obtain ⟨p, hp, rfl⟩ := Option.map_eq_some_iff.1 ((runStep_free h).symm.trans hs)
    rw [ih (move_walk.trans h) hrun, move_waiters_self]
    exact Waiter.clear_next hp

theorem exists_exec_returned {n : ℕ} (h : s.walk = .free) (hclear : (s.waiters w).Clear)
    (hn : (s.waiters w).remaining = n) :
    ∃ n s', machine.exec s (List.replicate n (.run w)) = some s' ∧
      (s'.waiters w).pc = .returned := by
  induction n generalizing s with
  | zero =>
    obtain hret | ⟨p, -, hp⟩ := hclear.next s.available
    · exact ⟨0, s, rfl, hret⟩
    · omega
  | succ n ih =>
    obtain hret | ⟨p, hnext, hp⟩ := hclear.next s.available
    · exact ⟨0, s, rfl, hret⟩
    · have hs : s.runStep w = some (s.move w p) := by
        rw [runStep_free h, hnext, Option.map_some]
      obtain ⟨m, s', hrun, hret⟩ := ih (s := s.move w p) (move_walk.trans h)
        (by rw [move_waiters_self]; exact (Waiter.clear_next hnext).2 hclear)
        (by rw [move_waiters_self]; omega)
      refine ⟨m + 1, s', ?_, hret⟩
      rw [List.replicate_succ, Machine.exec]
      exact Option.bind_eq_some_iff.2 ⟨_, hs, hrun⟩

/-- A call returns by its own steps exactly if it will not sleep again. -/
theorem willReturn_iff : s.WillReturn w ↔ (s.waiters w).Clear := by
  constructor
  · rintro ⟨n, s', hrun, hret⟩
    refine (clear_exec rfl hrun).1 ?_
    rw [Waiter.Clear, hret]
    trivial
  · exact fun h => exists_exec_returned (s := { s with walk := .free }) rfl h rfl

theorem kept_iff : s.Kept ↔ ∀ w, (s.waiters w).woken = true → (s.waiters w).Clear :=
  forall_congr' fun _ => imp_congr_right fun _ => willReturn_iff

/-! ### The steps -/

/-- `LX_RunOn` wakes those that it finds asleep or released by `LX_ReschedWaitOn`. -/
theorem runOnWake_of_wakes {id : ULONG} {isWq : Bool} (h : s.Wakes id w isWq v) :
    ∃ cause rc, runOnWake s.waiters id w isWq v =
      { s.waiters v with pc := .released cause, woken := true, rc } := by
  obtain ⟨rfl, hpc⟩ | ⟨hpc, hwq⟩ := h
  · refine ⟨.resched, (s.waiters v).rc, ?_⟩
    cases isWq <;>
      simp [runOnWake, Waiter.wakeUpAll, Waiter.devRun, Waiter.wakeReleased, hpc]
  · refine ⟨.runOn, (runOnWake s.waiters id w isWq v).rc, ?_⟩
    cases isWq with
    | false =>
      obtain ⟨hisWq, hid⟩ := hwq
      by_cases hvw : v = w
      · subst hvw
        simp [runOnWake, Waiter.devRun, Waiter.wakeReleased, hpc, hisWq, hid]
      · simp [runOnWake, Waiter.devRun, hpc, hisWq, hid, hvw]
    | true =>
      obtain ⟨rfl, hisWq⟩ := hwq
      simp [runOnWake, Waiter.wakeUpAll, Waiter.wakeReleased, hpc, hisWq]

/-- The others are left as they are. -/
theorem runOnWake_of_not_wakes {id : ULONG} {isWq : Bool} (h : ¬ s.Wakes id w isWq v) :
    runOnWake s.waiters id w isWq v = s.waiters v := by
  have hrel : v = w → (s.waiters v).wakeReleased = s.waiters v := fun hvw =>
    if_neg fun hpc => h (.inl ⟨hvw, hpc⟩)
  cases isWq with
  | false =>
    have hrun : (s.waiters v).devRun .runOn id = s.waiters v :=
      if_neg fun hpc => h (.inr ⟨hpc.1, hpc.2⟩)
    by_cases hvw : v = w
    · subst hvw
      simp [runOnWake, hrun, hrel rfl]
    · simp [runOnWake, hrun, hvw]
  | true =>
    by_cases hvw : v = w
    · subst hvw
      have hwake : (s.waiters v).wakeUpAll = s.waiters v :=
        if_neg fun hpc => h (.inr ⟨hpc.1, rfl, hpc.2⟩)
      simp [runOnWake, hwake, hrel rfl]
    · simp [runOnWake, hvw]

/-- What a step does to a waiter. -/
inductive Effect (s : Waits) (a : WaitAct) (v : ℕ) : Waiter → Prop
  /-- Nothing. -/
  | same : Effect s a v (s.waiters v)
  /-- It calls. -/
  | enter {p : Waiter} : p.woken = false → p.cont = false → Effect s a v p
  /-- It takes a step. -/
  | run {p : Waiter} : (s.waiters v).next s.available = some p → Effect s a v p
  /-- Its sleep ends. -/
  | ends (rc : ULONG) : (s.waiters v).pc = .asleep → Effect s a v ((s.waiters v).ends rc)
  /-- `LX_RunOn` wakes it. -/
  | woken {id : ULONG} {w : ℕ} {isWq : Bool} {rest : List ℕ} (cause : WakeCause) (rc : ULONG) :
      a = .walk → s.walk = .runOnWake id w isWq rest → s.Wakes id w isWq v →
      Effect s a v { s.waiters v with pc := .released cause, woken := true, rc }
  /-- `LX_ReschedWaitOn` sets its flag. -/
  | mark {rest : List ℕ} : a = .walk → s.walk = .reschedMark v rest →
      Effect s a v { s.waiters v with cont := true }
  /-- `LX_ReschedWaitOn` calls `DevRun`. -/
  | devRun (id : ULONG) : Effect s a v ((s.waiters v).devRun .resched id)

/-- A change of one waiter. -/
theorem effect_update {p : Waiter} (h : s.Effect a w p) :
    s.Effect a v (Function.update s.waiters w p v) := by
  by_cases hvw : v = w
  · subst hvw
    rwa [Function.update_self]
  · rw [Function.update_of_ne hvw]
    exact .same

theorem effect_walkStep (ha : a = .walk) (h : s.walkStep = some s') (v : ℕ) :
    s.Effect a v (s'.waiters v) := by
  unfold walkStep at h
  cases hwalk : s.walk with
  | free => rw [hwalk] at h; cases h
  | runOn id rest =>
    rw [hwalk] at h
    cases rest with
    | nil => cases h; exact .same
    | cons w rest =>
      simp only at h
      split_ifs at h <;> cases h <;> exact .same
  | runOnWake id w isWq rest =>
    rw [hwalk] at h
    cases h
    by_cases hv : s.Wakes id w isWq v
    · obtain ⟨cause, rc, heq⟩ := runOnWake_of_wakes hv
      simp only [heq]
      exact .woken cause rc ha hwalk hv
    · simp only [runOnWake_of_not_wakes hv]
      exact .same
  | resched rest =>
    rw [hwalk] at h
    cases rest with
    | nil => cases h; exact .same
    | cons w rest =>
      simp only at h
      split_ifs at h <;> cases h <;> exact .same
  | reschedMark w rest =>
    rw [hwalk] at h
    cases h
    exact effect_update (.mark ha hwalk)
  | reschedRun w rest =>
    rw [hwalk] at h
    cases h
    exact .devRun _

/-- A step changes one waiter, or begins a walk through the list, or is one of such a walk. -/
theorem step_cases (h : s.step a = some s') :
    (∃ w p, s.Effect a w p ∧ s'.waiters = Function.update s.waiters w p ∧ s'.walk = s.walk) ∨
    (s'.waiters = s.waiters ∧
      (s'.walk = s.walk ∨ (∃ id, s'.walk = .runOn id s.list) ∨ a = .resched)) ∨
    (a = .walk ∧ s.walkStep = some s') := by
  cases a with
  | enter w id timeout flags =>
    simp only [step] at h
    split_ifs at h
    cases h
    exact .inl ⟨w, _, .enter rfl rfl, rfl, rfl⟩
  | run w =>
    simp only [step, runStep] at h
    split_ifs at h
    obtain ⟨p, hp, rfl⟩ := Option.map_eq_some_iff.1 h
    exact .inl ⟨w, p, .run hp, rfl, rfl⟩
  | ends w rc =>
    simp only [step] at h
    split_ifs at h with hpc
    cases h
    exact .inl ⟨w, _, .ends rc hpc, rfl, rfl⟩
  | setAvailable b =>
    cases h
    exact .inr (.inl ⟨rfl, .inl rfl⟩)
  | runOn id =>
    simp only [step] at h
    split_ifs at h
    cases h
    exact .inr (.inl ⟨rfl, .inr (.inl ⟨id, rfl⟩)⟩)
  | reschedCall =>
    simp only [step] at h
    split_ifs at h
    cases h
    exact .inr (.inl ⟨rfl, .inl rfl⟩)
  | resched =>
    simp only [step] at h
    split_ifs at h
    cases h
    exact .inr (.inl ⟨rfl, .inr (.inr rfl)⟩)
  | walk => exact .inr (.inr ⟨rfl, h⟩)

theorem effect_step (h : s.step a = some s') (v : ℕ) : s.Effect a v (s'.waiters v) := by
  rcases step_cases h with ⟨w, p, he, hw, -⟩ | ⟨hw, -⟩ | ⟨ha, hs⟩
  · rw [hw]
    exact effect_update he
  · rw [hw]
    exact .same
  · exact effect_walkStep ha hs v

/-- A waiter that sleeps has not been woken. -/
theorem not_woken_of_asleep (hk : s.Kept) (hpc : (s.waiters v).pc = .asleep) :
    (s.waiters v).woken = false := by
  cases hw : (s.waiters v).woken with
  | false => rfl
  | true =>
    have hclear := kept_iff.1 hk v hw
    rw [Waiter.Clear, hpc] at hclear
    exact hclear.elim

theorem kept_step (hk : s.Kept) (hg : s.Apart a) (h : s.step a = some s') : s'.Kept := by
  refine kept_iff.2 fun v => ?_
  have hv := kept_iff.1 hk v
  have he := effect_step h v
  generalize s'.waiters v = p at he ⊢
  intro hw
  cases he with
  | same => exact hv hw
  | enter hnew _ => rw [hnew] at hw; cases hw
  | run hnext =>
    rw [Waiter.woken_next hnext] at hw
    exact (Waiter.clear_next hnext).2 (hv hw)
  | ends rc hpc =>
    exact absurd hw (by rw [Waiter.ends, not_woken_of_asleep hk hpc]; exact Bool.false_ne_true)
  | woken cause rc ha hwalk hwakes => exact (hg ha).1 _ _ _ _ hwalk v hwakes
  | mark ha hwalk =>
    have hclear := hv hw
    have htested := (hg ha).2 _ _ hwalk hw
    -- it is behind the test
    unfold Waiter.Clear at hclear ⊢
    cases hpc : (s.waiters v).pc with
    | testing => exact absurd (.inl hpc) htested
    | released cause => exact absurd (.inr ⟨cause, hpc⟩) htested
    | leaving => trivial
    | returned => trivial
    | _ =>
      rw [hpc] at hclear
      exact hclear.elim
  | devRun id =>
    unfold Waiter.devRun at hw ⊢
    split_ifs at hw ⊢ with hpc
    · simp [not_woken_of_asleep hk hpc.1] at hw
    · exact hv hw

/-- Outside the condition a waiter that is woken has the flag to find. -/
theorem apart_of_kept (h : s.step a = some s') (hk' : s'.Kept) : s.Apart a := by
  rintro rfl
  constructor
  · intro id w isWq rest hwalk v hwakes
    obtain ⟨cause, rc, heq⟩ := runOnWake_of_wakes hwakes
    simp only [step, walkStep, hwalk, Option.some.injEq] at h
    subst h
    have hclear := kept_iff.1 hk' v
    simp only [heq] at hclear
    exact hclear trivial
  · intro w rest hwalk hw huntested
    simp only [step, walkStep, hwalk, Option.some.injEq] at h
    subst h
    have hclear := kept_iff.1 hk' w
    simp only [Function.update_self] at hclear
    have hcont := hclear hw
    obtain hpc | ⟨cause, hpc⟩ := huntested
    · simp [Waiter.Clear, hpc] at hcont
    · simp [Waiter.Clear, hpc] at hcont

/-- **The exact condition.**  In a run the calls of all waiters that `LX_RunOn` has woken return by
their own steps if and only if `LX_RunOn` wakes no waiter that has the flag, and `LX_ReschedWaitOn`
sets it for none that is woken and has not tested it. -/
theorem always_kept_iff {as : List WaitAct} {s : Waits} (h : machine.exec initial as = some s) :
    machine.Always Kept initial as ↔ machine.Along Apart initial as :=
  Machine.always_iff_along (I := Kept) (fun _ hk => hk) (fun _ _ _ hk hg hs => kept_step hk hg hs)
    (fun _ _ _ _ hs hk' => apart_of_kept hs hk') (fun _ hw => by cases hw) h

/-- `LX_ReschedWaitOn` is not at work, and nobody has its flag. -/
structure NoResched (s : Waits) : Prop where
  /-- It does not hold the lock. -/
  walk : s.walk.NoResched
  /-- Nobody has the flag. -/
  cont : ∀ v, (s.waiters v).cont = false

theorem NoResched.effect {p : Waiter} (h : s.NoResched) (he : s.Effect a v p) :
    p.cont = false := by
  cases he with
  | same => exact h.cont v
  | enter _ hcont => exact hcont
  | run hnext => exact Waiter.cont_next hnext (h.cont v)
  | ends rc hpc => exact h.cont v
  | woken cause rc ha hwalk hwakes => exact h.cont v
  | mark ha hwalk => exact absurd h.walk (by rw [hwalk]; exact id)
  | devRun id =>
    unfold Waiter.devRun
    split_ifs
    · exact h.cont v
    · exact h.cont v

theorem NoResched.walkStep (h : s.NoResched) (hs : s.walkStep = some s') : s'.walk.NoResched := by
  have hwalk := h.walk
  unfold Waits.walkStep at hs
  cases hw : s.walk with
  | free => rw [hw] at hs; cases hs
  | runOn id rest =>
    rw [hw] at hs
    cases rest with
    | nil => cases hs; trivial
    | cons w rest =>
      simp only at hs
      split_ifs at hs <;> cases hs <;> trivial
  | runOnWake id w isWq rest => rw [hw] at hs; cases hs; trivial
  | resched rest => rw [hw] at hwalk; exact hwalk.elim
  | reschedMark w rest => rw [hw] at hwalk; exact hwalk.elim
  | reschedRun w rest => rw [hw] at hwalk; exact hwalk.elim

theorem NoResched.step (h : s.NoResched) (ha : a ≠ .resched) (hs : s.step a = some s') :
    s'.NoResched := by
  refine ⟨?_, fun v => h.effect (effect_step hs v)⟩
  rcases step_cases hs with ⟨-, -, -, -, hwalk⟩ | ⟨-, hwalk | ⟨id, hwalk⟩ | hresched⟩ | ⟨-, hs⟩
  · rw [hwalk]
    exact h.walk
  · rw [hwalk]
    exact h.walk
  · rw [hwalk]
    trivial
  · exact absurd hresched ha
  · exact h.walkStep hs

theorem NoResched.apart (h : s.NoResched) (a : WaitAct) : s.Apart a := by
  rintro -
  refine ⟨fun _ _ _ _ _ v _ => h.cont v, fun w rest hwalk => ?_⟩
  exact absurd h.walk (by rw [hwalk]; exact id)

/-- As long as `LX_ReschedWaitOn` does not run, no wake is lost. -/
theorem along_apart_of_no_resched {as : List WaitAct} (h : ∀ a ∈ as, a ≠ .resched) :
    machine.Along Apart initial as :=
  Machine.along_of_forall (I := NoResched) (fun _ a hn _ => hn.apart a)
    (fun _ _ _ hn ha hs => hn.step ha hs) ⟨trivial, fun _ => rfl⟩ h

/-- Waiter `0` goes to sleep for id `5`. -/
def sleeps : List WaitAct := [.enter 0 5 (-1) 0, .run 0, .run 0, .run 0, .run 0]

/-- `LX_RunOn` wakes a waiter, which returns. -/
theorem always_kept_wake :
    machine.Always Kept initial
      (sleeps ++ [.runOn 5, .walk, .walk, .walk, .run 0, .run 0, .run 0]) :=
  (always_kept_iff rfl).2 (along_apart_of_no_resched (by decide))

/-- `LX_RunOn` wakes a waiter, and before it runs `LX_ReschedWaitOn` sets its flag. -/
theorem not_always_kept_resched :
    let as := sleeps ++ [.runOn 5, .walk, .walk, .walk, .setAvailable true, .reschedCall, .resched,
      .walk, .walk]
    ∃ s, machine.exec initial as = some s ∧ ¬ machine.Always Kept initial as := by
  refine ⟨_, rfl, fun hal => ?_⟩
  have hclear := kept_iff.1 (hal.last rfl) 0 rfl
  cases hclear

end Waits

end LxApi32
