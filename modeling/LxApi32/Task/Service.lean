import LxApi32.Daemon.Packet
import LxApi32.Lib.Machine
import Mathlib.Logic.Function.Basic

/-!
# The service thread

The kernel code starts its threads through the service thread.  A caller of `LX_StartNewTask`
puts a request into `lx_task_to_start_list`; `LX_ServiceThread` takes one request at a time,
copies the three words of the new thread into the mailbox `lx_started_task` and creates the
thread; the new thread begins in `LXA_TaskStub32`, which empties the mailbox with one exchange for
each word.  The service thread also runs the softirqs that `LX_wakeup_softirq` asks for.

`TaskSys` is the state of `oo_thread.c` and of the mailbox, together with the threads: the service
thread, any number of callers and the new threads in their stubs.  One action is one atomic step
of one of them.  What the model leaves out:

* `DevRun`, `DevBlock` and the time for which the service thread blocks: an iteration may begin
  at any time, as may a turn of a waiting caller.
* The end of the service thread at shutdown, and an iteration that finds no stack.

A request is known by its address, a number, and an address is not used twice, so that every use
of a request after its `kfree` can be seen.  `TaskSys.step_cases` says once what each step can do.
-/

namespace LxApi32

/-- `LX_STARTTASK_WAIT` -/
def startTaskWait : ULONG := 1

/-- `LX_STARTTASK_STARTED` -/
def startTaskStarted : ULONG := 2

/-- `struct NTASK_struct` -/
structure NTask where
  /-- The stack of the new thread. -/
  esp : ULONG
  /-- Its entry point. -/
  eip : ULONG
  /-- The argument of the entry point. -/
  prev : ULONG
  deriving DecidableEq, Repr

/-- `struct lx_new_task_struct`, with two history variables that no step tests. -/
structure NewTask where
  /-- The three words. -/
  task : NTask
  /-- `flags` -/
  flags : ULONG
  /-- `tid` -/
  tid : ULONG
  /-- The thread id that `LXA_CreateThread` has stored in `tid`, if it has. -/
  stored : Option ULONG
  /-- How often the request was freed. -/
  frees : ℕ
  deriving DecidableEq, Repr

/-- The bit `LX_STARTTASK_WAIT` is set. -/
def hasWait (flags : ULONG) : Prop := flags &&& startTaskWait ≠ 0

/-- The bit `LX_STARTTASK_STARTED` is set. -/
def hasStarted (flags : ULONG) : Prop := flags &&& startTaskStarted ≠ 0

instance : DecidablePred hasWait :=
  fun flags => inferInstanceAs (Decidable (flags &&& startTaskWait ≠ 0))

instance : DecidablePred hasStarted :=
  fun flags => inferInstanceAs (Decidable (flags &&& startTaskStarted ≠ 0))

/-- `if(in_interrupt()) flags&=~LX_STARTTASK_WAIT;` -/
def startFlags (inInterrupt : Bool) (flags : ULONG) : ULONG :=
  if inInterrupt then flags &&& ~~~startTaskWait else flags

/-- Where the service thread stands. -/
inductive ServicePc
  /-- Between two iterations. -/
  | idle
  /-- At the test of `lx_softirq_wakes`. -/
  | testWakes
  /-- It has found `lx_softirq_wakes` non-zero and resets it next. -/
  | reset
  /-- About to call `do_softirq`. -/
  | softirq
  /-- In `do_softirq`. -/
  | inSoftirq
  /-- At the test of `lx_started_task.eip`. -/
  | testEip
  /-- At the test of `lx_started_task.esp`. -/
  | testEsp
  /-- At the test of `lx_started_task.prev`. -/
  | testPrev
  /-- At the `list_empty` test outside the lock. -/
  | testList
  /-- About to take `lx_task_to_start_lock`. -/
  | lock
  /-- It has taken the request `p` and copies `prev` next. -/
  | fillPrev (p : ℕ)
  /-- It copies `esp` next. -/
  | fillEsp (p : ℕ)
  /-- It copies `eip` next, and gives the lock back. -/
  | fillEip (p : ℕ)
  /-- In `LXA_CreateThread`. -/
  | create (p : ℕ)
  /-- At the test of `p->flags`. -/
  | testFlags (p : ℕ)
  /-- It frees the request next. -/
  | free (p : ℕ)
  /-- It sets `p->flags` next. -/
  | setStarted (p : ℕ)
  deriving DecidableEq, Repr

/-- The service thread holds `lx_task_to_start_lock`. -/
def ServicePc.locked : ServicePc → Bool
  | .fillPrev _ | .fillEsp _ | .fillEip _ => true
  | _ => false

/-- The request the service thread has in its hands. -/
def ServicePc.inHand : ServicePc → List ℕ
  | .fillPrev p | .fillEsp p | .fillEip p | .create p => [p]
  | .testFlags p | .free p | .setStarted p => [p]
  | _ => []

/-- Where a caller stands. -/
inductive Caller
  /-- Outside of `LX_StartNewTask`, with what the last call returned. -/
  | out (rc : Option ULONG)
  /-- It has filled the request `p`. -/
  | filled (p : ℕ) (flags : ULONG)
  /-- It has queued the request. -/
  | queued (p : ℕ) (flags : ULONG)
  /-- It has seen `LX_STARTTASK_STARTED`. -/
  | started (p : ℕ)
  /-- It has read `p->tid` and frees the request next. -/
  | taken (p : ℕ) (rc : ULONG)
  deriving DecidableEq, Repr

/-- Where a new thread stands in `LXA_TaskStub32`. -/
inductive Stub
  /-- Before the exchange of `lx_started_task.esp`. -/
  | start
  /-- It has its stack, and exchanges `lx_started_task.eip` next. -/
  | esp (esp : ULONG)
  /-- In `LX_add_this_current`, before the exchange of `lx_started_task.prev`. -/
  | eip (esp eip : ULONG)
  deriving DecidableEq, Repr

/-- A created thread that is still in its stub. -/
structure NewThread where
  /-- The request it was created for, a history variable. -/
  request : ℕ
  /-- Where it stands. -/
  stub : Stub
  deriving DecidableEq, Repr

/-- The state of the service thread, its callers and the new threads. -/
structure TaskSys where
  /-- `lx_softirq_wakes` -/
  wakes : ULONG
  /-- The service thread. -/
  service : ServicePc
  /-- `lx_task_to_start_list` -/
  toStart : List ℕ
  /-- `lx_started_task` -/
  mailbox : NTask
  /-- The requests, by their addresses. -/
  requests : ℕ → NewTask
  /-- The number of requests allocated so far, which is the next address. -/
  allocated : ℕ
  /-- The callers. -/
  callers : ℕ → Caller
  /-- The created threads that are still in their stubs. -/
  stubs : List NewThread
  /-- A request was used after its `kfree`, a history variable. -/
  late : Bool

/-- A step of one thread. -/
inductive TaskAct
  /-- Somebody calls `LX_wakeup_softirq`. -/
  | wakeup
  /-- The service thread takes its next step. -/
  | service
  /-- `LXA_CreateThread` stores a thread id, or fails. -/
  | create (tid : Option ULONG)
  /-- Caller `i` calls `LX_StartNewTask` and fills a request; `junk` is what `kmalloc` leaves in
  `tid`, and `alloc` its outcome. -/
  | call (i : ℕ) (task : NTask) (flags : ULONG) (inInterrupt : Bool) (junk : ULONG) (alloc : Bool)
  /-- Caller `i` queues its request under the lock. -/
  | enqueue (i : ℕ)
  /-- Caller `i` tests its flags, and those of the request if it waits. -/
  | poll (i : ℕ)
  /-- Caller `i` reads `p->tid`. -/
  | take (i : ℕ)
  /-- Caller `i` frees its request and returns. -/
  | release (i : ℕ)
  /-- The `k`-th thread in its stub makes its next exchange. -/
  | stub (k : ℕ)
  deriving DecidableEq, Repr

namespace TaskSys

/-- Caller `i` moves to `c`. -/
def setCaller (s : TaskSys) (i : ℕ) (c : Caller) : TaskSys :=
  { s with callers := Function.update s.callers i c }

/-- The request at `p` becomes `r`. -/
def setRequest (s : TaskSys) (p : ℕ) (r : NewTask) : TaskSys :=
  { s with requests := Function.update s.requests p r }

/-- The requests at `ps` are used. -/
def touch (s : TaskSys) (ps : List ℕ) : TaskSys :=
  { s with late := s.late || ps.any fun p => (s.requests p).frees != 0 }

/-- The request at `p` is freed. -/
def kfree (s : TaskSys) (p : ℕ) : TaskSys :=
  (s.touch [p]).setRequest p { s.requests p with frees := (s.requests p).frees + 1 }

/-- The service thread moves to `pc`. -/
def goto (s : TaskSys) (pc : ServicePc) : TaskSys := { s with service := pc }

/-- `LX_ServiceThread`, one step. -/
def serviceStep (s : TaskSys) : Option TaskSys :=
  match s.service with
  | .idle => some (s.goto .testWakes)
  | .testWakes => some (s.goto (if s.wakes ≠ 0 then .reset else .testEip))
  | .reset => some { s with wakes := 0, service := .softirq }
  | .softirq => some (s.goto .inSoftirq)
  | .inSoftirq => some (s.goto .testEip)
  | .testEip => some (s.goto (if s.mailbox.eip ≠ 0 then .idle else .testEsp))
  | .testEsp => some (s.goto (if s.mailbox.esp ≠ 0 then .idle else .testPrev))
  | .testPrev => some (s.goto (if s.mailbox.prev ≠ 0 then .idle else .testList))
  | .testList => some (s.goto (if s.toStart.isEmpty then .idle else .lock))
  | .lock =>
    match s.toStart with
    | [] => some (s.goto .idle)
    -- taking an entry off a list may use its neighbours
    | p :: rest => some { s.touch (p :: rest) with toStart := rest, service := .fillPrev p }
  | .fillPrev p =>
    some { s.touch [p] with
      mailbox := { s.mailbox with prev := (s.requests p).task.prev }, service := .fillEsp p }
  | .fillEsp p =>
    some { s.touch [p] with
      mailbox := { s.mailbox with esp := (s.requests p).task.esp }, service := .fillEip p }
  | .fillEip p =>
    some { s.touch [p] with
      mailbox := { s.mailbox with eip := (s.requests p).task.eip }, service := .create p }
  | .create _ => none
  | .testFlags p =>
    some ((s.touch [p]).goto (if hasWait (s.requests p).flags then .setStarted p else .free p))
  | .free p => some ((s.kfree p).goto .idle)
  | .setStarted p =>
    some (((s.touch [p]).setRequest p { s.requests p with flags := startTaskStarted }).goto .idle)

/-- `LXA_CreateThread` for the request `p`; a failure is not looked at. -/
def create (s : TaskSys) (p : ℕ) : Option ULONG → TaskSys
  | none => s.goto (.testFlags p)
  | some tid =>
    { ((s.touch [p]).setRequest p { s.requests p with tid := tid, stored := some tid }).goto
        (.testFlags p) with
      stubs := s.stubs ++ [⟨p, .start⟩] }

/-- `LX_StartNewTask` up to the lock. -/
def call (s : TaskSys) (i : ℕ) (task : NTask) (flags : ULONG) (inInterrupt : Bool) (junk : ULONG)
    (alloc : Bool) : TaskSys :=
  if alloc then
    let flags := startFlags inInterrupt flags
    { (s.setRequest s.allocated ⟨task, flags, junk, none, 0⟩).setCaller i
        (.filled s.allocated flags) with
      allocated := s.allocated + 1 }
  else s.setCaller i (.out (some negENOMEM))

/-- `LX_StartNewTask` under the lock. -/
def enqueue (s : TaskSys) (i p : ℕ) (flags : ULONG) : TaskSys :=
  { (s.touch (p :: s.toStart)).setCaller i (.queued p flags) with toStart := s.toStart ++ [p] }

/-- `LX_StartNewTask` after the lock: a caller that does not wait returns, and one that waits
looks at the flags of its request. -/
def poll (s : TaskSys) (i p : ℕ) (flags : ULONG) : TaskSys :=
  if hasWait flags then
    if hasStarted (s.requests p).flags then (s.touch [p]).setCaller i (.started p)
    else s.touch [p]
  else s.setCaller i (.out (some 0))

/-- `LXA_TaskStub32`, the next exchange of the `k`-th thread.  A thread without a stack ends; one
that has all three words calls its entry point. -/
def stubStep (s : TaskSys) (k : ℕ) (x : NewThread) : TaskSys :=
  match x.stub with
  | .start =>
    let esp := s.mailbox.esp
    { s with
      mailbox := { s.mailbox with esp := 0 }
      stubs := if esp = 0 then s.stubs.eraseIdx k else s.stubs.set k ⟨x.request, .esp esp⟩ }
  | .esp esp =>
    { s with
      mailbox := { s.mailbox with eip := 0 }
      stubs := s.stubs.set k ⟨x.request, .eip esp s.mailbox.eip⟩ }
  | .eip _ _ => { s with mailbox := { s.mailbox with prev := 0 }, stubs := s.stubs.eraseIdx k }

/-- The step function. -/
def step (s : TaskSys) : TaskAct → Option TaskSys
  | .wakeup => some { s with wakes := s.wakes + 1 }
  | .service => s.serviceStep
  | .create tid =>
    match s.service with
    | .create p => some (s.create p tid)
    | _ => none
  | .call i task flags inInterrupt junk alloc =>
    match s.callers i with
    | .out _ => some (s.call i task flags inInterrupt junk alloc)
    | _ => none
  | .enqueue i =>
    match s.callers i with
    | .filled p flags => if s.service.locked then none else some (s.enqueue i p flags)
    | _ => none
  | .poll i =>
    match s.callers i with
    | .queued p flags => some (s.poll i p flags)
    | _ => none
  | .take i =>
    match s.callers i with
    | .started p => some ((s.touch [p]).setCaller i (.taken p (s.requests p).tid))
    | _ => none
  | .release i =>
    match s.callers i with
    | .taken p rc => some ((s.kfree p).setCaller i (.out (some rc)))
    | _ => none
  | .stub k =>
    match s.stubs[k]? with
    | some x => some (s.stubStep k x)
    | none => none

/-- The service thread has started and nobody has called yet. -/
def initial : TaskSys where
  wakes := 0
  service := .idle
  toStart := []
  mailbox := ⟨0, 0, 0⟩
  requests := fun _ => ⟨⟨0, 0, 0⟩, 0, 0, none, 0⟩
  allocated := 0
  callers := fun _ => .out none
  stubs := []
  late := false

/-- The machine of the service thread. -/
def machine : Machine TaskSys TaskAct := ⟨initial, step⟩

/-! ### What a step can do -/

/-- The steps of the service thread that change nothing else. -/
inductive Moves (s : TaskSys) : ServicePc → Prop
  | idle (h : s.service = .idle) : Moves s .testWakes
  | wakesSet (h : s.service = .testWakes) (hw : s.wakes ≠ 0) : Moves s .reset
  | wakesZero (h : s.service = .testWakes) (hw : s.wakes = 0) : Moves s .testEip
  | softirq (h : s.service = .softirq) : Moves s .inSoftirq
  | inSoftirq (h : s.service = .inSoftirq) : Moves s .testEip
  | eipSet (h : s.service = .testEip) (hm : s.mailbox.eip ≠ 0) : Moves s .idle
  | eipZero (h : s.service = .testEip) (hm : s.mailbox.eip = 0) : Moves s .testEsp
  | espSet (h : s.service = .testEsp) (hm : s.mailbox.esp ≠ 0) : Moves s .idle
  | espZero (h : s.service = .testEsp) (hm : s.mailbox.esp = 0) : Moves s .testPrev
  | prevSet (h : s.service = .testPrev) (hm : s.mailbox.prev ≠ 0) : Moves s .idle
  | prevZero (h : s.service = .testPrev) (hm : s.mailbox.prev = 0) : Moves s .testList
  | listEmpty (h : s.service = .testList) (hl : s.toStart = []) : Moves s .idle
  | listFull (h : s.service = .testList) (hl : s.toStart ≠ []) : Moves s .lock
  | lockEmpty (h : s.service = .lock) (hl : s.toStart = []) : Moves s .idle

/-- The steps of the machine, one constructor for each way through the code. -/
inductive Step (s : TaskSys) : TaskAct → TaskSys → Prop
  | wakeup : Step s .wakeup { s with wakes := s.wakes + 1 }
  | move {pc} (h : s.Moves pc) : Step s .service (s.goto pc)
  | reset (h : s.service = .reset) : Step s .service { s with wakes := 0, service := .softirq }
  | pop {p rest} (h : s.service = .lock) (hl : s.toStart = p :: rest) :
      Step s .service { s.touch (p :: rest) with toStart := rest, service := .fillPrev p }
  | fillPrev {p} (h : s.service = .fillPrev p) :
      Step s .service { s.touch [p] with
        mailbox := { s.mailbox with prev := (s.requests p).task.prev }, service := .fillEsp p }
  | fillEsp {p} (h : s.service = .fillEsp p) :
      Step s .service { s.touch [p] with
        mailbox := { s.mailbox with esp := (s.requests p).task.esp }, service := .fillEip p }
  | fillEip {p} (h : s.service = .fillEip p) :
      Step s .service { s.touch [p] with
        mailbox := { s.mailbox with eip := (s.requests p).task.eip }, service := .create p }
  | createFails {p} (h : s.service = .create p) : Step s (.create none) (s.goto (.testFlags p))
  | create {p tid} (h : s.service = .create p) : Step s (.create (some tid)) (s.create p (some tid))
  | testWait {p} (h : s.service = .testFlags p) (hf : hasWait (s.requests p).flags) :
      Step s .service ((s.touch [p]).goto (.setStarted p))
  | testNoWait {p} (h : s.service = .testFlags p) (hf : ¬ hasWait (s.requests p).flags) :
      Step s .service ((s.touch [p]).goto (.free p))
  | free {p} (h : s.service = .free p) : Step s .service ((s.kfree p).goto .idle)
  | setStarted {p} (h : s.service = .setStarted p) :
      Step s .service (((s.touch [p]).setRequest p
        { s.requests p with flags := startTaskStarted }).goto .idle)
  | callNoMemory {i task flags inInterrupt junk rc} (hc : s.callers i = .out rc) :
      Step s (.call i task flags inInterrupt junk false) (s.setCaller i (.out (some negENOMEM)))
  | call {i task flags inInterrupt junk rc} (hc : s.callers i = .out rc) :
      Step s (.call i task flags inInterrupt junk true)
        { (s.setRequest s.allocated ⟨task, startFlags inInterrupt flags, junk, none, 0⟩).setCaller i
            (.filled s.allocated (startFlags inInterrupt flags)) with
          allocated := s.allocated + 1 }
  | enqueue {i p flags} (hc : s.callers i = .filled p flags) (hl : s.service.locked = false) :
      Step s (.enqueue i) (s.enqueue i p flags)
  | pollReturn {i p flags} (hc : s.callers i = .queued p flags) (hw : ¬ hasWait flags) :
      Step s (.poll i) (s.setCaller i (.out (some 0)))
  | pollAgain {i p flags} (hc : s.callers i = .queued p flags) (hw : hasWait flags)
      (hs : ¬ hasStarted (s.requests p).flags) : Step s (.poll i) (s.touch [p])
  | pollStarted {i p flags} (hc : s.callers i = .queued p flags) (hw : hasWait flags)
      (hs : hasStarted (s.requests p).flags) :
      Step s (.poll i) ((s.touch [p]).setCaller i (.started p))
  | take {i p} (hc : s.callers i = .started p) :
      Step s (.take i) ((s.touch [p]).setCaller i (.taken p (s.requests p).tid))
  | release {i p rc} (hc : s.callers i = .taken p rc) :
      Step s (.release i) ((s.kfree p).setCaller i (.out (some rc)))
  | stubFails {k p} (hk : s.stubs[k]? = some ⟨p, .start⟩) (hm : s.mailbox.esp = 0) :
      Step s (.stub k) { s with stubs := s.stubs.eraseIdx k }
  | stubEsp {k p} (hk : s.stubs[k]? = some ⟨p, .start⟩) (hm : s.mailbox.esp ≠ 0) :
      Step s (.stub k) { s with
        mailbox := { s.mailbox with esp := 0 }
        stubs := s.stubs.set k ⟨p, .esp s.mailbox.esp⟩ }
  | stubEip {k p esp} (hk : s.stubs[k]? = some ⟨p, .esp esp⟩) :
      Step s (.stub k) { s with
        mailbox := { s.mailbox with eip := 0 }
        stubs := s.stubs.set k ⟨p, .eip esp s.mailbox.eip⟩ }
  | stubPrev {k p esp eip} (hk : s.stubs[k]? = some ⟨p, .eip esp eip⟩) :
      Step s (.stub k)
        { s with mailbox := { s.mailbox with prev := 0 }, stubs := s.stubs.eraseIdx k }

theorem goto_if {s : TaskSys} {c : Prop} [Decidable c] {pc pc' : ServicePc}
    (h : c → s.Moves pc) (h' : ¬ c → s.Moves pc') :
    Step s .service (s.goto (if c then pc else pc')) := by
  split_ifs with hc
  · exact .move (h hc)
  · exact .move (h' hc)

theorem serviceStep_cases {s s' : TaskSys} (h : s.serviceStep = some s') :
    Step s .service s' := by
  unfold serviceStep at h
  split at h
  case h_1 hp => cases h; exact .move (.idle hp)
  case h_2 hp => cases h; exact goto_if (.wakesSet hp) fun hw => .wakesZero hp (not_not.1 hw)
  case h_3 hp => cases h; exact .reset hp
  case h_4 hp => cases h; exact .move (.softirq hp)
  case h_5 hp => cases h; exact .move (.inSoftirq hp)
  case h_6 hp => cases h; exact goto_if (.eipSet hp) fun hm => .eipZero hp (not_not.1 hm)
  case h_7 hp => cases h; exact goto_if (.espSet hp) fun hm => .espZero hp (not_not.1 hm)
  case h_8 hp => cases h; exact goto_if (.prevSet hp) fun hm => .prevZero hp (not_not.1 hm)
  case h_9 hp =>
    cases h
    exact goto_if (fun hl => .listEmpty hp (List.isEmpty_iff.1 hl))
      fun hl => .listFull hp fun hn => hl (List.isEmpty_iff.2 hn)
  case h_10 hp =>
    split at h <;> rename_i hl <;> cases h
    · exact .move (.lockEmpty hp hl)
    · exact .pop hp hl
  case h_11 hp => cases h; exact .fillPrev hp
  case h_12 hp => cases h; exact .fillEsp hp
  case h_13 hp => cases h; exact .fillEip hp
  case h_14 => cases h
  case h_15 p hp =>
    cases h
    split_ifs with hf
    · exact .testWait hp hf
    · exact .testNoWait hp hf
  case h_16 hp => cases h; exact .free hp
  case h_17 hp => cases h; exact .setStarted hp

theorem poll_cases {s : TaskSys} {i p : ℕ} {flags : ULONG} (hc : s.callers i = .queued p flags) :
    Step s (.poll i) (s.poll i p flags) := by
  unfold poll
  split_ifs with hw hs
  · exact .pollStarted hc hw hs
  · exact .pollAgain hc hw hs
  · exact .pollReturn hc hw

theorem stubStep_cases {s : TaskSys} {k : ℕ} {x : NewThread} (hk : s.stubs[k]? = some x) :
    Step s (.stub k) (s.stubStep k x) := by
  obtain ⟨p, x⟩ := x
  cases x with
  | start =>
    by_cases hm : s.mailbox.esp = 0
    · have hself : s.stubStep k ⟨p, .start⟩ = { s with stubs := s.stubs.eraseIdx k } := by
        simp only [stubStep, hm, ↓reduceIte]
        rw [← hm]
      exact hself ▸ .stubFails hk hm
    · simp only [stubStep, hm, ↓reduceIte]
      exact .stubEsp hk hm
  | esp => exact .stubEip hk
  | eip => exact .stubPrev hk

/-- Every step of the machine is one of the listed ones. -/
theorem step_cases {s s' : TaskSys} {a : TaskAct} (h : machine.step s a = some s') :
    Step s a s' := by
  change step s a = some s' at h
  cases a with
  | wakeup => cases h; exact .wakeup
  | service => exact serviceStep_cases h
  | create tid =>
    simp only [step] at h
    split at h <;> cases h
    rename_i hp
    cases tid with
    | none => exact .createFails hp
    | some tid => exact .create hp
  | call i task flags inInterrupt junk alloc =>
    simp only [step] at h
    split at h <;> cases h
    rename_i hc
    cases alloc with
    | false => exact .callNoMemory hc
    | true => exact .call hc
  | enqueue i =>
    simp only [step] at h
    split at h
    · rename_i hc
      split_ifs at h with hl
      cases h
      exact .enqueue hc (Bool.not_eq_true _ ▸ hl)
    · cases h
  | poll i =>
    simp only [step] at h
    split at h <;> cases h
    exact poll_cases ‹_›
  | take i =>
    simp only [step] at h
    split at h <;> cases h
    exact .take ‹_›
  | release i =>
    simp only [step] at h
    split at h <;> cases h
    exact .release ‹_›
  | stub k =>
    simp only [step] at h
    split at h <;> cases h
    exact stubStep_cases ‹_›

end TaskSys

end LxApi32
