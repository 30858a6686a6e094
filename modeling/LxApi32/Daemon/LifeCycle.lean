import LxApi32.Lib.Machine
import LxApi32.Daemon.Packet

/-!
# The life cycle of the daemon, as the driver sees it

The driver keeps the state of the daemon in two variables.  `lx_daemon_pid` decides whether
`LX_dmn_add_command` queues a command, `lx_daemon_state` is what `LX_wait_for_daemon` tests.
Here are the functions that set and read them, and a machine that runs `CMDGET`,
`LX_daemon_closed` and `LX_daemon_shutdown` in any order, with every wait of
`LX_daemon_shutdown` a place where the others can come in.

* `always_views_iff` : the two variables agree along a run exactly if no `CMDGET` attaches a
  daemon after the state has moved past `RUNNING`.
* `lxWaitForDaemon_eq_zero_iff` : what `LX_wait_for_daemon` returns while they agree.
-/

namespace LxApi32

/-- The values of `lx_daemon_state` (`LX_DAEMON_STATE_*`). -/
inductive DaemonState
  | uninitialized | coming | running | going | gone
  deriving DecidableEq, Repr

/-- The number the source gives to a state. -/
def DaemonState.toNat : DaemonState → ℕ
  | .uninitialized => 0
  | .coming => 1
  | .running => 2
  | .going => 3
  | .gone => 4

/-- Process ids are 16 bits wide and not `0`. -/
abbrev Pid := { p : BitVec 16 // p ≠ 0 }

/-- A process. -/
def firstPid : Pid := ⟨7, by decide⟩

/-- Another one. -/
def secondPid : Pid := ⟨8, by decide⟩

/-- The two variables that describe the daemon. -/
structure DaemonVars where
  /-- `lx_daemon_pid` -/
  pid : BitVec 16
  /-- `lx_daemon_state` -/
  state : DaemonState
  deriving DecidableEq, Repr

namespace DaemonVars

/-- Their initial values. -/
def initial : DaemonVars := ⟨0, .uninitialized⟩

/-- The first part of `CMDGET`: a process that asks for a command while no daemon is attached
becomes the daemon.  The state only moves up. -/
def attach (v : DaemonVars) (cur : Pid) : DaemonVars :=
  if v.pid = 0 then
    ⟨cur.1, if v.state.toNat < DaemonState.running.toNat then .running else v.state⟩
  else v

/-- The first statements of `LX_daemon_closed`. -/
def closed (_ : DaemonVars) : DaemonVars := ⟨0, .going⟩

/-- The test with which `LX_dmn_add_command` begins. -/
def queues (v : DaemonVars) : Bool := v.pid != 0

@[simp] theorem queues_iff {v : DaemonVars} : v.queues = true ↔ v.pid ≠ 0 := by
  simp [queues]

theorem attach_pid_ne (v : DaemonVars) (cur : Pid) : (v.attach cur).pid ≠ 0 := by
  unfold attach
  split
  · exact cur.2
  · assumption

end DaemonVars

/-! ### `LX_wait_for_daemon` -/

/-- The waiting loop of `LX_wait_for_daemon` with `c` turns left, `state t` being what the
variable holds after `t` waits.  The result is the number of waits at the end. -/
def waitLoop (state : ℕ → DaemonState) : ℕ → ℕ → ℕ
  | 0, t => t
  | c + 1, t =>
    if (state t).toNat < DaemonState.running.toNat then waitLoop state c (t + 1) else t

/-- `LX_wait_for_daemon`, called at time `t`: its result and the time at which it returns. -/
def lxWaitForDaemon (state : ℕ → DaemonState) (t : ℕ) : ULONG × ℕ :=
  let t' :=
    if state t ≠ .running then
      if (state t).toNat < DaemonState.running.toNat then waitLoop state 100 t else t
    else t
  (if state t' = .running then 0 else negENOENT, t')

/-- The variables agree: a daemon is attached exactly in the state `RUNNING`. -/
def DaemonVars.Agree (v : DaemonVars) : Prop := v.pid ≠ 0 ↔ v.state = .running

theorem lxWaitForDaemon_fst (state : ℕ → DaemonState) (t : ℕ) :
    (lxWaitForDaemon state t).1 = 0 ↔ state (lxWaitForDaemon state t).2 = .running := by
  simp only [lxWaitForDaemon]
  split_ifs <;> simp_all [negENOENT]

/-- While the variables agree, `LX_wait_for_daemon` returns `0` exactly when, at the time of
its return, `LX_dmn_add_command` queues a command. -/
theorem lxWaitForDaemon_eq_zero_iff {hist : ℕ → DaemonVars} (h : ∀ t, (hist t).Agree) (t : ℕ) :
    (lxWaitForDaemon (fun u => (hist u).state) t).1 = 0 ↔
      (hist (lxWaitForDaemon (fun u => (hist u).state) t).2).queues = true := by
  rw [lxWaitForDaemon_fst, DaemonVars.queues_iff]
  exact (h _).symm

/-- In a state that does not change, the result of `LX_wait_for_daemon` says whether it is
`RUNNING`. -/
theorem lxWaitForDaemon_const (d : DaemonState) :
    (lxWaitForDaemon (fun _ => d) 0).1 = 0 ↔ d = .running :=
  lxWaitForDaemon_fst (fun _ => d) 0

/-! ### The machine -/

namespace LifeCycle

/-- The variables, and the turns left to a call of `LX_daemon_shutdown` in its waiting loop. -/
structure St where
  /-- `lx_daemon_pid` and `lx_daemon_state`. -/
  vars : DaemonVars
  /-- The counter `c` of a running `LX_daemon_shutdown`. -/
  shutdown : Option ℕ
  deriving DecidableEq, Repr

/-- What can happen. -/
inductive Act
  /-- A process calls `CMDGET`. -/
  | cmdGet (cur : Pid)
  /-- `LX_daemon_closed` runs. -/
  | daemonClosed
  /-- `LX_daemon_shutdown` is called and queues its command. -/
  | shutdownCall
  /-- One wait in the loop of `LX_daemon_shutdown`. -/
  | shutdownWait
  /-- `LX_daemon_shutdown` leaves the loop and returns. -/
  | shutdownReturn

/-- The step function.  The `SHUTDOWN` command is queued without a data block, so
`LX_dmn_add_command` returns at once and neither variable changes. -/
def step (s : St) : Act → Option St
  | .cmdGet cur => some { s with vars := s.vars.attach cur }
  | .daemonClosed => some { s with vars := s.vars.closed }
  | .shutdownCall => if s.shutdown = none then some { s with shutdown := some 20 } else none
  | .shutdownWait =>
    match s.shutdown with
    | some (c + 1) => if s.vars.pid ≠ 0 then some { s with shutdown := some c } else none
    | _ => none
  | .shutdownReturn =>
    match s.shutdown with
    | none => none
    | some c =>
      if c = 0 ∨ s.vars.pid = 0 then
        some ⟨if s.vars.pid ≠ 0 then s.vars.closed else s.vars, none⟩
      else none

/-- The machine of the daemon's life cycle. -/
def machine : Machine St Act := ⟨⟨.initial, none⟩, step⟩

/-- The driver's two views of the daemon are the same: the variables agree, and
`LX_wait_for_daemon` succeeds exactly when `LX_dmn_add_command` would queue the command. -/
def Views (s : St) : Prop :=
  s.vars.Agree ∧ ((lxWaitForDaemon (fun _ => s.vars.state) 0).1 = 0 ↔ s.vars.queues = true)

/-- A `CMDGET` that attaches a daemon does so before the state has moved past `RUNNING`. -/
def AttachesEarly (s : St) : Act → Prop
  | .cmdGet _ => s.vars.pid = 0 → s.vars.state.toNat ≤ DaemonState.running.toNat
  | _ => True

theorem views_iff {s : St} : Views s ↔ s.vars.Agree := by
  refine ⟨And.left, fun h => ⟨h, ?_⟩⟩
  rw [lxWaitForDaemon_const, DaemonVars.queues_iff]
  exact h.symm

theorem agree_closed (v : DaemonVars) : v.closed.Agree := by
  simp [DaemonVars.Agree, DaemonVars.closed]

/-- Attaching a daemon makes the variables agree exactly if the state could still move up. -/
theorem agree_attach_iff {v : DaemonVars} (h : v.Agree) (cur : Pid) :
    (v.attach cur).Agree ↔ (v.pid = 0 → v.state.toNat ≤ DaemonState.running.toNat) := by
  by_cases hp : v.pid = 0
  · have hr : v.state ≠ .running := fun hr => h.2 hr hp
    have hne := cur.2
    cases hs : v.state <;> simp_all [DaemonVars.Agree, DaemonVars.attach, DaemonState.toNat]
  · simp only [DaemonVars.attach, hp, ↓reduceIte, false_imp_iff, iff_true]
    exact h

theorem agree_step {s s' : St} {a : Act} (h : s.vars.Agree) (hst : step s a = some s') :
    s'.vars.Agree ↔ AttachesEarly s a := by
  cases a with
  | cmdGet cur =>
    cases hst
    exact agree_attach_iff h cur
  | daemonClosed =>
    cases hst
    exact iff_of_true (agree_closed s.vars) trivial
  | shutdownCall =>
    simp only [step] at hst
    split_ifs at hst
    cases hst
    exact iff_of_true h trivial
  | shutdownWait =>
    simp only [step] at hst
    split at hst
    · split_ifs at hst
      cases hst
      exact iff_of_true h trivial
    · cases hst
  | shutdownReturn =>
    simp only [step] at hst
    split at hst
    · cases hst
    · split_ifs at hst with _ hp
      · cases hst
        exact iff_of_true (agree_closed s.vars) trivial
      · cases hst
        exact iff_of_true h trivial

/-- **The two views agree along a run exactly if no daemon attaches after an earlier one was
closed.** -/
theorem always_views_iff {as : List Act} {s : St} (h : machine.exec machine.init as = some s) :
    machine.Always Views machine.init as ↔ machine.Along AttachesEarly machine.init as :=
  have hinit : machine.init.vars.Agree := by
    simp [DaemonVars.Agree, machine, DaemonVars.initial]
  Machine.always_iff_along (fun _ h => views_iff.2 h)
    (fun _ _ _ hI hg hst => (agree_step hI hst).2 hg)
    (fun _ _ _ hI hst hP => (agree_step hI hst).1 hP.1) hinit h

/-- A first daemon that closes and a second one that asks for a command. -/
def restart : List Act := [.cmdGet firstPid, .daemonClosed, .cmdGet secondPid]

/-- The second daemon is attached, and `LX_wait_for_daemon` fails. -/
theorem restart_not_views :
    ∃ s, machine.exec machine.init restart = some s ∧ ¬ Views s := by
  refine ⟨⟨⟨8, .going⟩, none⟩, rfl, ?_⟩
  intro h
  have := (views_iff.1 h).1 (by decide)
  cases this

/-- A first daemon that is shut down: `always_views_iff` on a run. -/
theorem always_views_shutdown :
    machine.Always Views machine.init
        [.cmdGet firstPid, .shutdownCall, .daemonClosed, .shutdownReturn] ↔
      machine.Along AttachesEarly machine.init
        [.cmdGet firstPid, .shutdownCall, .daemonClosed, .shutdownReturn] :=
  @always_views_iff _ ⟨⟨0, .going⟩, none⟩ rfl

end LifeCycle

end LxApi32
