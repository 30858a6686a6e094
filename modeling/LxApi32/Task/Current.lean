import LxApi32.Kernel.UtlList
import LxApi32.Lib.FirstMatch
import LxApi32.Lib.Machine

/-!
# Current tasks at the driver's entry points

`lx_current_list` has an entry for every thread that runs in the driver.  `LX_Strategy` and
`IDCEntry` enter the calling thread with `LX_enter_current` and leave with `LX_leave_current`.  The
enter uses the entry that the thread has already, the leave takes the entry out whoever has made
it, unless the thread runs on a `UTLStack`; and `IDCEntry` returns without a leave if the caller
wants a newer version.

* `Currents.balanced_iff` : a call returns with the entries that were there before exactly if it
  comes to no enter, or the thread is registered and does not leave, or it leaves and its first
  entry, if it has one, has no task.

The functions that `LX_Strategy` dispatches to may enter, add and leave in any order.  An
allocation that fails makes the code write through a null pointer, the call does not return then.
-/

namespace LxApi32

/-- `struct lx_current`; `initialized` and `malloced` are bits of `current_flags`. -/
structure LxCurrent where
  /-- The address of the entry. -/
  addr : ULONG
  /-- `os2_pid` and `os2_tid` -/
  thread : ThreadId
  /-- `LXC_FLAG_INITIALIZED` -/
  initialized : Bool
  /-- `LXC_FLAG_TSK_MALLOCED` -/
  malloced : Bool
  /-- `thread_info` -/
  threadInfo : ULONG
  /-- `task` -/
  task : ULONG
  deriving DecidableEq, Repr

/-- `LX_get_lxcurrent_from_ti` -/
def getLxcurrentFromTi (ti : ULONG) (list : List LxCurrent) : Option LxCurrent :=
  list.find? fun p => p.threadInfo = ti

/-- `p->current_flags|=LXC_FLAG_INITIALIZED` for the entry that `LX_get_lxcurrent_from_ti` finds. -/
def setInitialized (ti : ULONG) : List LxCurrent → List LxCurrent
  | [] => []
  | p :: rest =>
    if p.threadInfo = ti then { p with initialized := true } :: rest
    else p :: setInitialized ti rest

/-- `list_del` of the entry that `LX_get_lxcurrent_from_ti` finds. -/
def delCurrent (ti : ULONG) (list : List LxCurrent) : List LxCurrent :=
  list.eraseP fun p => p.threadInfo = ti

/-- `LX_is_utl_current` -/
def isUtlCurrent (ti : ULONG) (root : List UtlStack) : Bool := (findUtlstackTi ti root).isSome

/-- What does not change during a call. -/
structure CurrentEnv where
  /-- `current_thread_info()` -/
  ti : ULONG
  /-- `lx_current_pid` and `lx_current_tid` -/
  thread : ThreadId
  /-- `lx_UtlStackRoot` -/
  utl : List UtlStack
  /-- `lx_init_task` -/
  lxInitTask : ULONG
  /-- `&init_task` -/
  initTask : ULONG
  /-- It is an address. -/
  initTask_ne : initTask ≠ 0

/-- The state. -/
structure Currents where
  /-- `lx_current_list` -/
  list : List LxCurrent
  /-- `ti->task` of the calling thread. -/
  tiTask : ULONG
  /-- `lx_current_available` -/
  available : Bool
  /-- `lx_current_task` -/
  currentTask : ULONG
  /-- `lx_current_thread_info` -/
  currentThreadInfo : ULONG
  deriving DecidableEq, Repr

/-- What `kmalloc` returns in an enter: the entry and the task. -/
structure CurrentMemory where
  /-- `struct lx_current` -/
  entry : ULONG
  /-- `struct task_struct` -/
  task : ULONG
  deriving DecidableEq, Repr

/-- A call of the thread. -/
inductive CurrentCall
  /-- `LX_enter_current` -/
  | enter (mem : CurrentMemory)
  /-- `LX_add_this_current` with the entry that is allocated and the pid of `ti->task` -/
  | addThis (entry pid : ULONG)
  /-- `LX_leave_current` -/
  | leave
  deriving DecidableEq, Repr

namespace Currents

/-- `LX_add_this_current` -/
def addThisCurrent (env : CurrentEnv) (entry pid : ULONG) (s : Currents) : Option Currents :=
  let task :=
    if s.tiTask ≠ 0 then s.tiTask
    else if env.lxInitTask ≠ 0 then env.lxInitTask
    else env.initTask
  match getLxcurrentFromTi env.ti s.list with
  | some _ => some { s with tiTask := task }
  | none =>
    if entry = 0 then none
    else some { s with
      list := ⟨entry, env.thread, true, false, env.ti, task⟩ :: s.list
      tiTask := task
      available := s.available || pid = 1 }

/-- `LX_enter_current`.  A new entry comes to `lx_current_list` as the last thing. -/
def enterCurrent (env : CurrentEnv) (mem : CurrentMemory) (s : Currents) : Option Currents :=
  match getLxcurrentFromTi env.ti s.list with
  | some p =>
    if p.task = 0 then some s
    else if env.lxInitTask ≠ 0 ∧ p.initialized = false then
      -- `LX_init_task`, which sets `ti->task` as well
      some { s with list := setInitialized env.ti s.list, tiTask := p.task }
    else some { s with tiTask := p.task }
  | none =>
    if mem.entry = 0 ∨ mem.task = 0 then none
    else some { s with
      list := ⟨mem.entry, env.thread, env.lxInitTask ≠ 0, true, env.ti, mem.task⟩ :: s.list
      tiTask := mem.task }

/-- `LX_leave_current`.  The entry is freed, and the thread info is cleared. -/
def leaveCurrent (env : CurrentEnv) (s : Currents) : Currents :=
  if isUtlCurrent env.ti env.utl then s
  else match getLxcurrentFromTi env.ti s.list with
    | some p =>
      if p.task ≠ 0 then
        let s := { s with list := delCurrent env.ti s.list, tiTask := 0 }
        if s.available ∧ p.initialized ∧ p.task = s.currentTask then
          { s with currentTask := 0, currentThreadInfo := 0 }
        else s
      else s
    | none => s

/-- A call, `none` if it writes through a null pointer. -/
def call (env : CurrentEnv) (s : Currents) : CurrentCall → Option Currents
  | .enter mem => s.enterCurrent env mem
  | .addThis entry pid => s.addThisCurrent env entry pid
  | .leave => some (s.leaveCurrent env)

/-- The machine of one thread's calls. -/
def machine (env : CurrentEnv) (s : Currents) : Machine Currents CurrentCall := ⟨s, call env⟩

end Currents

/-- `RPERR_COMMAND` -/
def rperrCommand : ULONG := 0x8003

/-- `RPDONE` -/
def rpdone : ULONG := 0x0100

/-- `LXAPI_VERSION` -/
def lxapiVersion : ULONG := 9

/-- `LXIDCCMD_GETTHUNKAPI` -/
def lxidccmdGetthunkapi : ULONG := 0

/-- `LXIDC_ERR_NONE` -/
def lxidcErrNone : ULONG := 0

/-- `LXIDC_ERR_VERSION` -/
def lxidcErrVersion : ULONG := 1

/-- A function of `lx_StratDispatch`: its calls and what it returns. -/
structure StratHandler where
  /-- The calls that change the list. -/
  calls : List CurrentCall
  /-- The status. -/
  rc : ULONG
  deriving DecidableEq, Repr

/-- A call of the driver. -/
inductive DriverCall
  /-- `LX_Strategy` for a request packet with this command. -/
  | strategy (mem : CurrentMemory) (command : BitVec 8) (handler : StratHandler)
  /-- `IDCEntry` for a packet with this `required_version`. -/
  | idcEntry (mem : CurrentMemory) (cmd requiredVersion : ULONG)
  deriving DecidableEq, Repr

namespace Currents

/-- `LX_Strategy`; `lx_StratDispatch` has 32 entries. -/
def strategy (env : CurrentEnv) (s : Currents) (mem : CurrentMemory) (command : BitVec 8)
    (handler : StratHandler) : Option (Currents × ULONG) :=
  if command < 0x20 then do
    let s₁ ← s.enterCurrent env mem
    let s₂ ← (machine env s).exec s₁ handler.calls
    some (s₂.leaveCurrent env, handler.rc)
  else some (s, rperrCommand ||| rpdone)

/-- `IDCEntry` -/
def idcEntry (env : CurrentEnv) (s : Currents) (mem : CurrentMemory)
    (cmd requiredVersion : ULONG) : Option (Currents × ULONG) := do
  let s₁ ← s.enterCurrent env mem
  if cmd = lxidccmdGetthunkapi ∧ lxapiVersion < requiredVersion then
    some (s₁, lxidcErrVersion)
  else some (s₁.leaveCurrent env, lxidcErrNone)

/-- A call of the driver. -/
def driverCall (env : CurrentEnv) (s : Currents) : DriverCall → Option (Currents × ULONG)
  | .strategy mem command handler => s.strategy env mem command handler
  | .idcEntry mem cmd requiredVersion => s.idcEntry env mem cmd requiredVersion

/-- What makes an entry the entry it is; the flags and the name of the thread do not. -/
def ident (p : LxCurrent) : ULONG × ULONG × ULONG := (p.addr, p.threadInfo, p.task)

/-- The two lists have the same entries. -/
def Balanced (l l' : List LxCurrent) : Prop := (l'.map ident).Perm (l.map ident)

/-- The thread has an entry. -/
def Registered (env : CurrentEnv) (s : Currents) : Prop := ∃ p ∈ s.list, p.threadInfo = env.ti

/-- A thread that enters and leaves: one that runs on a `UTLStack` has to be registered, another
one must not be, or its first entry has no task. -/
def LeavesAsFound (env : CurrentEnv) (s : Currents) : Prop :=
  if isUtlCurrent env.ti env.utl then s.Registered env
  else ∀ p, getLxcurrentFromTi env.ti s.list = some p → p.task = 0

/-- The condition under which a call of the driver restores the list. -/
def Restores (env : CurrentEnv) (s : Currents) : DriverCall → Prop
  | .strategy _ command _ => command < 0x20 → s.LeavesAsFound env
  | .idcEntry _ cmd requiredVersion =>
    if cmd = lxidccmdGetthunkapi ∧ lxapiVersion < requiredVersion then s.Registered env
    else s.LeavesAsFound env

/-! ### The list -/

variable {env : CurrentEnv} {s s' : Currents} {c : CurrentCall} {ti : ULONG} {l : List LxCurrent}

theorem getLxcurrentFromTi_eq_none :
    getLxcurrentFromTi ti l = none ↔ ∀ p ∈ l, p.threadInfo ≠ ti := by
  simp [getLxcurrentFromTi]

theorem getLxcurrentFromTi_eq_some {p : LxCurrent} (h : getLxcurrentFromTi ti l = some p) :
    p ∈ l ∧ p.threadInfo = ti :=
  ⟨List.mem_of_find?_eq_some h, by simpa using List.find?_some h⟩

theorem registered_iff : s.Registered env ↔ ∃ p, getLxcurrentFromTi env.ti s.list = some p := by
  rw [← Option.ne_none_iff_exists', ne_eq, getLxcurrentFromTi_eq_none]
  simp [Registered]

theorem setInitialized_eq : setInitialized ti l =
    modifyFirst (fun p => p.threadInfo = ti) (fun p => { p with initialized := true }) l :=
  FirstMatch.eq_modifyFirst rfl fun _ _ => rfl

theorem ident_setInitialized : (setInitialized ti l).map ident = l.map ident := by
  rw [setInitialized_eq]
  exact FirstMatch.map_modifyFirst fun _ => rfl

theorem getLxcurrentFromTi_setInitialized {p : LxCurrent}
    (h : getLxcurrentFromTi ti l = some p) :
    getLxcurrentFromTi ti (setInitialized ti l) = some { p with initialized := true } := by
  rw [setInitialized_eq]
  exact FirstMatch.find?_modifyFirst h (getLxcurrentFromTi_eq_some h).2

theorem length_delCurrent (h : getLxcurrentFromTi ti l ≠ none) :
    (delCurrent ti l).length + 1 = l.length := by
  obtain ⟨p, hp⟩ := Option.ne_none_iff_exists'.1 h
  obtain ⟨hmem, hti⟩ := getLxcurrentFromTi_eq_some hp
  have hpos := List.length_pos_of_mem hmem
  rw [delCurrent, List.length_eraseP_of_mem hmem (by simpa using hti)]
  omega

theorem delCurrent_cons {p : LxCurrent} (h : p.threadInfo = ti) : delCurrent ti (p :: l) = l := by
  simp [delCurrent, h]

/-! ### What the three functions do -/

theorem leaveCurrent_utl (h : isUtlCurrent env.ti env.utl = true) : s.leaveCurrent env = s :=
  if_pos h

/-- A leave takes the first entry of the thread out, if that has a task. -/
theorem leaveCurrent_list (h : isUtlCurrent env.ti env.utl = false) :
    (s.leaveCurrent env).list =
      if ∃ p, getLxcurrentFromTi env.ti s.list = some p ∧ p.task ≠ 0 then delCurrent env.ti s.list
      else s.list := by
  simp only [leaveCurrent, h, Bool.false_eq_true, if_false]
  cases hp : getLxcurrentFromTi env.ti s.list with
  | none => simp
  | some p =>
    by_cases htask : p.task = 0
    · simp [htask]
    · simp only [ne_eq, htask, not_false_eq_true, if_true, Option.some.injEq, exists_eq_left']
      split_ifs <;> rfl

/-- Both functions that register a thread use its first entry `p`, if it has one, and change at
most a flag. -/
def Reused (env : CurrentEnv) (s s' : Currents) (p : LxCurrent) : Prop :=
  s'.list = s.list ∨ p.task ≠ 0 ∧ s'.list = setInitialized env.ti s.list

/-- Otherwise they add an entry that has a task. -/
def Added (env : CurrentEnv) (s s' : Currents) : Prop :=
  ∃ p, s'.list = p :: s.list ∧ p.threadInfo = env.ti ∧ p.task ≠ 0

theorem enterCurrent_reused {mem : CurrentMemory} {p : LxCurrent}
    (hp : getLxcurrentFromTi env.ti s.list = some p) (h : s.enterCurrent env mem = some s') :
    Reused env s s' p := by
  simp only [enterCurrent, hp] at h
  split_ifs at h with htask hinit
  · cases h
    exact .inl rfl
  · cases h
    exact .inr ⟨htask, rfl⟩
  · cases h
    exact .inl rfl

theorem enterCurrent_added {mem : CurrentMemory} (hp : getLxcurrentFromTi env.ti s.list = none)
    (h : s.enterCurrent env mem = some s') : Added env s s' := by
  simp only [enterCurrent, hp] at h
  split_ifs at h with hmem
  cases h
  exact ⟨_, rfl, rfl, fun h0 => hmem (.inr h0)⟩

theorem addThisCurrent_reused {entry pid : ULONG} {p : LxCurrent}
    (hp : getLxcurrentFromTi env.ti s.list = some p)
    (h : s.addThisCurrent env entry pid = some s') : Reused env s s' p := by
  simp only [addThisCurrent, hp] at h
  cases h
  exact .inl rfl

theorem addThisCurrent_added {entry pid : ULONG} (hp : getLxcurrentFromTi env.ti s.list = none)
    (h : s.addThisCurrent env entry pid = some s') : Added env s s' := by
  simp only [addThisCurrent, hp] at h
  split_ifs at h with hentry htask hinit
  · cases h
    exact ⟨_, rfl, rfl, htask⟩
  · cases h
    exact ⟨_, rfl, rfl, hinit⟩
  · cases h
    exact ⟨_, rfl, rfl, env.initTask_ne⟩

/-- A call is a leave, or the thread has an entry, or gets one. -/
theorem call_cases (h : s.call env c = some s') :
    s' = s.leaveCurrent env ∨
      (∃ p, getLxcurrentFromTi env.ti s.list = some p ∧ Reused env s s' p) ∨
      getLxcurrentFromTi env.ti s.list = none ∧ Added env s s' := by
  cases c with
  | leave => exact .inl (Option.some.inj h).symm
  | enter mem =>
    cases hp : getLxcurrentFromTi env.ti s.list with
    | none => exact .inr (.inr ⟨rfl, enterCurrent_added hp h⟩)
    | some p => exact .inr (.inl ⟨p, rfl, enterCurrent_reused hp h⟩)
  | addThis entry pid =>
    cases hp : getLxcurrentFromTi env.ti s.list with
    | none => exact .inr (.inr ⟨rfl, addThisCurrent_added hp h⟩)
    | some p => exact .inr (.inl ⟨p, rfl, addThisCurrent_reused hp h⟩)

theorem Reused.ident_eq {p : LxCurrent} (h : Reused env s s' p) :
    s'.list.map ident = s.list.map ident := by
  rcases h with hl | ⟨-, hl⟩
  · rw [hl]
  · rw [hl, ident_setInitialized]

theorem Reused.length_eq {p : LxCurrent} (h : Reused env s s' p) :
    s'.list.length = s.list.length := by
  simpa only [List.length_map] using congrArg List.length h.ident_eq

/-- The first entry of the thread stays the first one, with its task. -/
theorem Reused.first {p : LxCurrent} (hp : getLxcurrentFromTi env.ti s.list = some p)
    (h : Reused env s s' p) : ∃ p', getLxcurrentFromTi env.ti s'.list = some p' ∧
      p'.task = p.task := by
  rcases h with hl | ⟨-, hl⟩
  · exact ⟨p, hl ▸ hp, rfl⟩
  · exact ⟨{ p with initialized := true }, hl ▸ getLxcurrentFromTi_setInitialized hp, rfl⟩

theorem getLxcurrentFromTi_cons {p : LxCurrent} (h : p.threadInfo = ti) :
    getLxcurrentFromTi ti (p :: l) = some p := by
  simp [getLxcurrentFromTi, h]

theorem Added.first (h : Added env s s') :
    ∃ p, getLxcurrentFromTi env.ti s'.list = some p ∧ p.task ≠ 0 := by
  obtain ⟨p, hl, hti, htask⟩ := h
  exact ⟨p, hl ▸ getLxcurrentFromTi_cons hti, htask⟩

theorem Balanced.registered (h : Balanced s.list s'.list) (hreg : s'.Registered env) :
    s.Registered env := by
  obtain ⟨p, hp, hti⟩ := hreg
  obtain ⟨q, hq, hqp⟩ := List.mem_map.1 (h.subset (List.mem_map.2 ⟨p, hp, rfl⟩))
  exact ⟨q, hq, (congrArg (fun i => i.2.1) hqp).trans hti⟩

/-! ### A thread on a `UTLStack` -/

/-- It keeps its entry. -/
theorem registered_call (hutl : isUtlCurrent env.ti env.utl = true) (hreg : s.Registered env)
    (h : s.call env c = some s') : s'.Registered env ∧ s'.list.map ident = s.list.map ident := by
  obtain rfl | ⟨p, hp, hre⟩ | ⟨hnone, -⟩ := call_cases h
  · rw [leaveCurrent_utl hutl]
    exact ⟨hreg, rfl⟩
  · obtain ⟨p', hp', -⟩ := hre.first hp
    exact ⟨registered_iff.2 ⟨p', hp'⟩, hre.ident_eq⟩
  · obtain ⟨p, hp⟩ := registered_iff.1 hreg
    rw [hp] at hnone
    cases hnone

theorem registered_run (hutl : isUtlCurrent env.ti env.utl = true) {calls : List CurrentCall}
    {s₀ : Currents} (hreg : s.Registered env) (h : (machine env s₀).exec s calls = some s') :
    s'.Registered env ∧ s'.list.map ident = s.list.map ident := by
  refine Machine.Run.invariant (I := fun s₁ => s₁.Registered env ∧
    s₁.list.map ident = s.list.map ident) (Machine.run_anyStep_iff.2 h) ?_ ⟨hreg, rfl⟩
  rintro s₁ c s₂ ⟨hreg₁, hid⟩ - hcall
  obtain ⟨hreg₂, hid₂⟩ := registered_call hutl hreg₁ hcall
  exact ⟨hreg₂, hid₂.trans hid⟩

theorem registered_enterCurrent {mem : CurrentMemory} (h : s.enterCurrent env mem = some s') :
    s'.Registered env := by
  cases hp : getLxcurrentFromTi env.ti s.list with
  | none =>
    obtain ⟨p, hp', -⟩ := (enterCurrent_added hp h).first
    exact registered_iff.2 ⟨p, hp'⟩
  | some p =>
    obtain ⟨p', hp', -⟩ := (enterCurrent_reused hp h).first hp
    exact registered_iff.2 ⟨p', hp'⟩

/-- An enter balances if the thread has an entry. -/
theorem balanced_enterCurrent_iff {mem : CurrentMemory} (h : s.enterCurrent env mem = some s') :
    Balanced s.list s'.list ↔ s.Registered env := by
  refine ⟨fun hb => hb.registered (registered_enterCurrent h), ?_⟩
  intro hreg
  obtain ⟨p, hp⟩ := registered_iff.1 hreg
  exact .of_eq (enterCurrent_reused hp h).ident_eq

/-! ### Another thread -/

/-- If the thread has no entry with a task at the beginning, its calls keep the list or put one
entry in front. -/
def Restorable (env : CurrentEnv) (s₀ s : Currents) : Prop :=
  s.list = s₀.list ∨ Added env s₀ s

theorem leaveCurrent_restorable {s₀ : Currents} (hutl : isUtlCurrent env.ti env.utl = false)
    (h₀ : ∀ p, getLxcurrentFromTi env.ti s₀.list = some p → p.task = 0)
    (h : Restorable env s₀ s) : (s.leaveCurrent env).list = s₀.list := by
  rw [leaveCurrent_list hutl]
  rcases h with hl | hadd
  · rw [hl]
    refine if_neg ?_
    rintro ⟨p, hp, htask⟩
    exact htask (h₀ p hp)
  · rw [if_pos hadd.first]
    obtain ⟨p, hl, hti, -⟩ := hadd
    rw [hl, delCurrent_cons hti]

theorem restorable_call {s₀ : Currents} (hutl : isUtlCurrent env.ti env.utl = false)
    (h₀ : ∀ p, getLxcurrentFromTi env.ti s₀.list = some p → p.task = 0)
    (hs : Restorable env s₀ s) (h : s.call env c = some s') : Restorable env s₀ s' := by
  obtain rfl | ⟨p, hp, hre⟩ | ⟨hnone, hadd⟩ := call_cases h
  · exact .inl (leaveCurrent_restorable hutl h₀ hs)
  · rcases hre with hl | ⟨htask, hl⟩
    · simpa only [Restorable, Added, hl] using hs
    · rcases hs with hs | ⟨q, hq, hti, hqtask⟩
      · exact absurd (h₀ p (hs ▸ hp)) htask
      · -- the flag of the new entry is set
        refine .inr ⟨{ q with initialized := true }, ?_, hti, hqtask⟩
        rw [hl, hq, setInitialized, if_pos hti]
  · rcases hs with hs | hs
    · simpa only [Restorable, Added, hs] using Or.inr hadd
    · obtain ⟨p, hp, -⟩ := hs.first
      rw [hp] at hnone
      cases hnone

theorem restorable_run {s₀ : Currents} {calls : List CurrentCall}
    (hutl : isUtlCurrent env.ti env.utl = false)
    (h₀ : ∀ p, getLxcurrentFromTi env.ti s₀.list = some p → p.task = 0)
    (h : (machine env s₀).exec s₀ calls = some s) : Restorable env s₀ s :=
  (Machine.run_anyStep_iff.2 h).invariant (fun _ _ _ hs _ => restorable_call hutl h₀ hs) (.inl rfl)

/-- If the thread has one, the list never gets longer, and its first entry has a task as long as
none has been taken out. -/
def Shrinks (env : CurrentEnv) (n : ℕ) (s : Currents) : Prop :=
  s.list.length < n ∨
    s.list.length = n ∧ ∃ p, getLxcurrentFromTi env.ti s.list = some p ∧ p.task ≠ 0

theorem leaveCurrent_shrinks {n : ℕ} (hutl : isUtlCurrent env.ti env.utl = false)
    (h : Shrinks env n s) : (s.leaveCurrent env).list.length < n := by
  rw [leaveCurrent_list hutl]
  by_cases hp : ∃ p, getLxcurrentFromTi env.ti s.list = some p ∧ p.task ≠ 0
  · rw [if_pos hp]
    obtain ⟨p, hp, -⟩ := hp
    have hlen := length_delCurrent (hp ▸ Option.some_ne_none p)
    rcases h with h | ⟨h, -⟩ <;> omega
  · rw [if_neg hp]
    rcases h with h | ⟨-, hp'⟩
    · exact h
    · exact absurd hp' hp

theorem shrinks_call {n : ℕ} (hutl : isUtlCurrent env.ti env.utl = false)
    (hs : Shrinks env n s) (h : s.call env c = some s') : Shrinks env n s' := by
  obtain rfl | ⟨p, hp, hre⟩ | ⟨hnone, hadd⟩ := call_cases h
  · exact .inl (leaveCurrent_shrinks hutl hs)
  · rw [Shrinks, hre.length_eq]
    rcases hs with hs | ⟨hs, q, hq, htask⟩
    · exact .inl hs
    · obtain rfl : p = q := Option.some.inj (hp.symm.trans hq)
      obtain ⟨p', hp', htask'⟩ := hre.first hp
      exact .inr ⟨hs, p', hp', htask' ▸ htask⟩
  · rcases hs with hs | ⟨-, p, hp, -⟩
    · have hlen : s'.list.length = s.list.length + 1 := by
        obtain ⟨p, hl, -⟩ := hadd
        rw [hl, List.length_cons]
      rcases Nat.lt_or_ge s'.list.length n with hlt | hge
      · exact .inl hlt
      · exact .inr ⟨by omega, hadd.first⟩
    · rw [hp] at hnone
      cases hnone

theorem shrinks_run {s₀ : Currents} {n : ℕ} {calls : List CurrentCall}
    (hutl : isUtlCurrent env.ti env.utl = false) (hs : Shrinks env n s)
    (h : (machine env s₀).exec s calls = some s') : Shrinks env n s' :=
  (Machine.run_anyStep_iff.2 h).invariant (fun _ _ _ hs _ => shrinks_call hutl hs) hs

/-! ### The entry points -/

/-- An enter, any calls and a leave. -/
theorem balanced_leave_iff {mem : CurrentMemory} {calls : List CurrentCall} {s₁ s₂ : Currents}
    (h₁ : s.enterCurrent env mem = some s₁) (h₂ : (machine env s).exec s₁ calls = some s₂) :
    Balanced s.list (s₂.leaveCurrent env).list ↔ s.LeavesAsFound env := by
  rw [LeavesAsFound]
  cases hutl : isUtlCurrent env.ti env.utl with
  | true =>
    rw [if_pos rfl, leaveCurrent_utl hutl]
    obtain ⟨hreg, hid⟩ := registered_run hutl (registered_enterCurrent h₁) h₂
    refine ⟨fun hb => hb.registered hreg, ?_⟩
    intro hreg₀
    exact .of_eq (hid.trans (registered_call (c := .enter mem) hutl hreg₀ h₁).2)
  | false =>
    rw [if_neg Bool.false_ne_true]
    have hrun : (machine env s).exec s (.enter mem :: calls) = some s₂ := by
      show (s.enterCurrent env mem).bind _ = _
      rw [h₁]
      exact h₂
    constructor
    · intro hb p hp
      by_contra htask
      have hlt := leaveCurrent_shrinks hutl
        (shrinks_run hutl (n := s.list.length) (.inr ⟨rfl, p, hp, htask⟩) hrun)
      have hlen := hb.length_eq
      rw [List.length_map, List.length_map] at hlen
      omega
    · intro h₀
      rw [leaveCurrent_restorable hutl h₀ (restorable_run hutl h₀ hrun)]
      exact .refl _

end Currents

/-- **The exact condition.**  A call of the driver that returns leaves `lx_current_list` with the
entries it had before if and only if it restores them by the condition on the thread. -/
theorem Currents.balanced_iff {env : CurrentEnv} {s s' : Currents} {call : DriverCall} {rc : ULONG}
    (h : s.driverCall env call = some (s', rc)) :
    Balanced s.list s'.list ↔ s.Restores env call := by
  cases call with
  | strategy mem command handler =>
    simp only [driverCall, strategy] at h
    simp only [Restores]
    split_ifs at h with hcommand
    · rw [imp_iff_right hcommand]
      simp only [Option.bind_eq_bind, Option.bind_eq_some_iff, Option.some.injEq,
        Prod.mk.injEq] at h
      obtain ⟨s₁, h₁, s₂, h₂, rfl, -⟩ := h
      exact balanced_leave_iff h₁ h₂
    · cases h
      exact iff_of_true (.refl _) fun hc => absurd hc hcommand
  | idcEntry mem cmd requiredVersion =>
    simp only [driverCall, idcEntry, Option.bind_eq_bind, Option.bind_eq_some_iff] at h
    obtain ⟨s₁, h₁, h⟩ := h
    simp only [Restores]
    split_ifs at h ⊢ with hversion
    · cases h
      exact balanced_enterCurrent_iff h₁
    · cases h
      have h₂ : (machine env s).exec s₁ [] = some s₁ := rfl
      exact balanced_leave_iff h₁ h₂

/-- A thread that is not registered opens the device. -/
theorem Currents.balanced_open :
    let env : CurrentEnv := ⟨0x1000, ⟨7, 1⟩, [], 0, 0x2000, by decide⟩
    let s : Currents := ⟨[⟨0x500, ⟨3, 1⟩, true, false, 0x3000, 0x600⟩], 0, true, 0, 0⟩
    ∃ s' rc, s.driverCall env (.strategy ⟨0x700, 0x800⟩ 0x0d ⟨[], rpdone⟩) = some (s', rc) ∧
      Balanced s.list s'.list := by
  intro env s
  have h : s.driverCall env (.strategy ⟨0x700, 0x800⟩ 0x0d ⟨[], rpdone⟩) = some (s, rpdone) := by
    decide
  have hnone : getLxcurrentFromTi env.ti s.list = none := by decide
  refine ⟨s, rpdone, h, (Currents.balanced_iff h).2 fun _ => ?_⟩
  rw [LeavesAsFound, if_neg (by decide)]
  intro p hp
  rw [hnone] at hp
  cases hp

/-- A task that has registered itself calls the driver, and is not registered any more. -/
theorem Currents.not_balanced_registered :
    let env : CurrentEnv := ⟨0x1000, ⟨7, 1⟩, [], 0, 0x2000, by decide⟩
    let s : Currents := ⟨[⟨0x500, ⟨7, 1⟩, true, false, 0x1000, 0x600⟩], 0x600, true, 0, 0⟩
    ∃ s' rc, s.driverCall env (.strategy ⟨0x700, 0x800⟩ 0x0d ⟨[], rpdone⟩) = some (s', rc) ∧
      ¬ Balanced s.list s'.list := by
  refine ⟨⟨[], 0, true, 0, 0⟩, rpdone, by decide, ?_⟩
  intro h
  exact absurd h.length_eq (by decide)

end LxApi32
