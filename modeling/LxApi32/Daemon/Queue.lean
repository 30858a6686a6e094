import LxApi32.Daemon.LifeCycle
import Mathlib.Logic.Function.Basic

/-!
# The command queue between the driver's clients and the daemon

`Sys` is the state of `lxdaemon.c` together with the threads that run it: any number of
clients inside `LX_dmn_add_command`, and one daemon process that fetches commands with
`CMDGET`, posts their results with `CMDSETRESULTS` and may be closed at any time.  One action
is one atomic step of one thread: a read of a shared variable outside the lock, a section
under `lx_cmd_lock`, a registration in `lx_wait_list`, the block itself, or a `LX_RunOn`.

What the model leaves out:

* A client's own `LX_WaitOn` in `LX_dmn_get_result` times out after a second, so it may return
  at any time; only the daemon's wait, which has no time-out, is modelled step by step.
* `DevRun` wakes the threads that are blocked at that moment and nobody else, so a waiter
  that is registered but not yet blocked is not woken.
* `LX_daemon_closed` is called when the daemon process closes the device, so its first step
  also removes the daemon's thread and what the process has fetched.

`Sys.step_cases` says once what each step can do.
-/

namespace LxApi32

/-- The memory of the callers, as disjoint blocks: what the block at an address holds. -/
abbrev Mem := ULONG → List UInt8

/-- The fields of the daemon's packet that `CMDGET` reads. -/
structure GetArgs where
  /-- `pa->rc` -/
  rc : ULONG
  /-- `pa->cbMaxDataLen` -/
  cbMaxDataLen : ULONG
  deriving DecidableEq, Repr

/-- The arguments of `LX_dmn_add_command`, with the contents of the data block. -/
structure AddArgs where
  /-- The command. -/
  ulCmd : ULONG
  /-- Wait for the result? -/
  waitflag : ULONG
  /-- The packet as the caller passes it, uninitialised for the most part. -/
  parm : CmdParmPacket
  /-- The address of the data block. -/
  pData : ULONG
  /-- Its length. -/
  cbDataLen : ULONG
  /-- What it holds. -/
  data : List UInt8
  deriving DecidableEq, Repr

/-- Where a client stands. -/
inductive Client
  /-- Outside of `LX_dmn_add_command`, with what the last call returned. -/
  | out (result : Option (ULONG × CmdParmPacket))
  /-- It found a daemon and has filled an entry for its arguments, but not queued it yet. -/
  | filled (args : AddArgs)
  /-- It has queued the entry and not yet called `LX_RunOn`. -/
  | appended (cmd : CommandListEntry)
  /-- In the loop of `LX_dmn_get_result`. -/
  | getResult (cmd : CommandListEntry)

/-- Where the daemon's thread stands. -/
inductive DaemonPc
  /-- There is no daemon process. -/
  | gone
  /-- In the daemon's own code. -/
  | user
  /-- In `LX_get_next_command`, before the `list_empty` test outside the lock. -/
  | test (pa : GetArgs)
  /-- The list was empty: at the start of `LX_WaitOn`. -/
  | register (pa : GetArgs)
  /-- In `lx_wait_list`, about to block. -/
  | block (pa : GetArgs)
  /-- Blocked, with no time-out. -/
  | blocked (pa : GetArgs)
  /-- Woken, still in `lx_wait_list`. -/
  | woken (pa : GetArgs)
  /-- About to take `lx_cmd_lock`. -/
  | lock (pa : GetArgs)
  /-- It has taken an entry off the list and released the lock. -/
  | popped (pa : GetArgs) (pe : CommandListEntry)
  deriving DecidableEq, Repr

/-- The entry the daemon's thread has in its hands inside the driver. -/
def DaemonPc.inHand : DaemonPc → List CommandListEntry
  | .popped _ pe => [pe]
  | _ => []

/-- The state of the driver, its clients and the daemon. -/
structure Sys where
  /-- `lx_daemon_pid` and `lx_daemon_state`. -/
  vars : DaemonVars
  /-- `lx_daemon_cmdhandle` -/
  cmdhandle : ULONG
  /-- `lx_waiting_command_list` -/
  waiting : List CommandListEntry
  /-- `lx_done_command_list` -/
  done : List CommandListEntry
  /-- The daemon's thread. -/
  daemon : DaemonPc
  /-- The packets the daemon has fetched and not yet posted. -/
  fetched : List CommandListEntry
  /-- The clients. -/
  clients : ℕ → Client
  /-- Calls of `LX_daemon_closed` that have reset `lx_daemon_pid` and not yet taken the lock. -/
  closing : ℕ
  /-- The callers' data blocks. -/
  mem : Mem
  /-- The number of commands queued so far, a history variable. -/
  queued : ℕ

/-- A step of one thread. -/
inductive Act
  /-- Client `i` calls `LX_dmn_add_command` and comes to the lock; `alloc` is the outcome of
  its `kmalloc`. -/
  | call (i : ℕ) (a : AddArgs) (alloc : Bool)
  /-- Client `i` queues its entry under the lock. -/
  | append (i : ℕ)
  /-- Client `i` calls `LX_RunOn` for the waiting list. -/
  | runOn (i : ℕ)
  /-- Client `i` comes back from its wait and searches the done list. -/
  | poll (i : ℕ)
  /-- Process `cur` enters `CMDGET`. -/
  | cmdGet (cur : Pid) (pa : GetArgs)
  /-- The daemon's thread takes its next step inside `CMDGET`. -/
  | getNext
  /-- A signal ends the daemon's block. -/
  | signal
  /-- `LX_ReschedWaitOn` makes the daemon block again. -/
  | resched
  /-- The daemon posts its `k`-th fetched packet; `alloc` is the outcome of the `kmalloc` in
  `LX_dmn_add_done_command`. -/
  | setResults (k : ℕ) (rc : ULONG) (data : List UInt8) (alloc : Bool)
  /-- The daemon closes the device: `LX_daemon_closed` resets the variables. -/
  | closeBegin
  /-- `LX_daemon_closed` answers the waiting commands under the lock. -/
  | closeSweep
  deriving DecidableEq, Repr

/-- The entry that `LX_dmn_add_command` fills. -/
def AddArgs.entry (a : AddArgs) : CommandListEntry where
  parmPacket :=
    { a.parm with
      rc := 0
      cmd := a.ulCmd
      cbCmdDataLen := a.cbDataLen
      cmdBlockID := if a.waitflag ≠ 0 then a.pData else 0 }
  data := if a.waitflag ≠ 0 then [] else a.data.take a.cbDataLen.toNat
  ticket := 0

namespace CommandListEntry

/-- The entry with the handle and the ticket it is queued with. -/
def queuedAs (e : CommandListEntry) (hcmd : ULONG) (ticket : ℕ) : CommandListEntry :=
  { e with parmPacket := { e.parmPacket with hcmd := hcmd }, ticket := ticket }

/-- The packet that `CMDGET` copies to the daemon, which keeps its own two fields. -/
def fetchedBy (e : CommandListEntry) (pa : GetArgs) : CommandListEntry :=
  { e with parmPacket := { e.parmPacket with rc := pa.rc, cbMaxDataLen := pa.cbMaxDataLen } }

@[simp] theorem key_fetchedBy (e : CommandListEntry) (pa : GetArgs) :
    (e.fetchedBy pa).key = e.key := rfl

@[simp] theorem cmdBlockID_queuedAs (e : CommandListEntry) (h : ULONG) (t : ℕ) :
    (e.queuedAs h t).parmPacket.cmdBlockID = e.parmPacket.cmdBlockID := rfl

end CommandListEntry

namespace Sys

/-- Client `i` moves to `c`. -/
def setClient (s : Sys) (i : ℕ) (c : Client) : Sys :=
  { s with clients := Function.update s.clients i c }

@[simp] theorem clients_setClient_self (s : Sys) (i : ℕ) (c : Client) :
    (s.setClient i c).clients i = c :=
  Function.update_self ..

theorem clients_setClient_ne (s : Sys) {i j : ℕ} (c : Client) (h : j ≠ i) :
    (s.setClient i c).clients j = s.clients j :=
  Function.update_of_ne h ..

/-- `LX_dmn_add_command` up to the lock: without a daemon it returns `0` and leaves the packet
alone, without memory it returns `-ENOMEM`. -/
def call (s : Sys) (i : ℕ) (a : AddArgs) (alloc : Bool) : Sys :=
  let s := { s with mem := Function.update s.mem a.pData a.data }
  if s.vars.queues then
    if alloc then s.setClient i (.filled a)
    else s.setClient i (.out (some (negENOMEM, a.parm)))
  else s.setClient i (.out (some (0, a.parm)))

/-- `LX_dmn_add_command` under the lock: it takes the next handle and queues the entry. -/
def append (s : Sys) (i : ℕ) (e : CommandListEntry) : Sys :=
  let cmd := e.queuedAs (nextCmdhandle s.cmdhandle) s.queued
  { s.setClient i (.appended cmd) with
    cmdhandle := nextCmdhandle s.cmdhandle
    waiting := s.waiting ++ [cmd]
    queued := s.queued + 1 }

/-- `LX_RunOn` for the waiting list wakes the daemon if it is blocked. -/
def wakeDaemon : DaemonPc → DaemonPc
  | .blocked pa => .woken pa
  | pc => pc

/-- `LX_dmn_add_command` after the lock: it wakes the daemon, and goes on to
`LX_dmn_get_result` if the packet has a block. -/
def runOn (s : Sys) (i : ℕ) (e : CommandListEntry) : Sys :=
  { s.setClient i (if e.parmPacket.waited then .getResult e else .out (some (0, e.parmPacket)))
    with daemon := wakeDaemon s.daemon }

/-- One turn of `LX_dmn_get_result`: it takes the first entry with its handle off the done
list and copies the packet to the caller. -/
def poll (s : Sys) (i : ℕ) (e : CommandListEntry) : Sys :=
  match s.done.find? fun pe => pe.parmPacket.hcmd == e.parmPacket.hcmd with
  | none => s
  | some pe =>
    { s.setClient i (.out (some (pe.parmPacket.rc, pe.parmPacket))) with
      done := s.done.eraseP fun pe => pe.parmPacket.hcmd == e.parmPacket.hcmd }

/-- `LX_get_next_command` and the rest of `CMDGET`, one step. -/
def getNext (s : Sys) : Option Sys :=
  match s.daemon with
  | .test pa =>
    if s.waiting.isEmpty then some { s with daemon := .register pa }
    else some { s with daemon := .lock pa }
  | .register pa => some { s with daemon := .block pa }
  | .block pa => some { s with daemon := .blocked pa }
  | .woken pa => some { s with daemon := .lock pa }
  | .lock pa =>
    match s.waiting with
    | [] => some { s with daemon := .test pa }
    | pe :: rest => some { s with waiting := rest, daemon := .popped pa pe }
  | .popped pa pe =>
    -- too long for the daemon's buffer: back to the head, the daemon is told to grow it
    if pa.cbMaxDataLen < pe.parmPacket.cbCmdDataLen then
      some { s with waiting := pe :: s.waiting, daemon := .user }
    else some { s with fetched := s.fetched ++ [pe.fetchedBy pa], daemon := .user }
  | _ => none

/-- `CMDSETRESULTS` for the packet `e`, the `k`-th fetched one.  Only packets with a block are
posted, and a failed `kmalloc` is not reported to the daemon. -/
def setResults (s : Sys) (k : ℕ) (e : CommandListEntry) (rc : ULONG) (data : List UInt8)
    (alloc : Bool) : Sys :=
  let s := { s with fetched := s.fetched.eraseIdx k }
  if e.parmPacket.waited && alloc then
    let len := e.parmPacket.cbCmdDataLen.toNat
    let block := e.parmPacket.cmdBlockID
    { s with
      done := s.done ++ [e.withRc rc]
      mem := Function.update s.mem block (data.take len ++ (s.mem block).drop len) }
  else s

/-- The first statements of `LX_daemon_closed`, and the end of the daemon process. -/
def closeBegin (s : Sys) : Sys :=
  { s with vars := s.vars.closed, daemon := .gone, fetched := [], closing := s.closing + 1 }

/-- `LX_daemon_closed` under the lock: waiting commands with a block are moved to the done
list, the others are freed, and everything on the done list gets `ERROR_NO_CHILDREN`. -/
def closeSweep (s : Sys) (n : ℕ) : Sys :=
  { s with
    waiting := []
    done := (s.done ++ s.waiting.filter fun e => e.parmPacket.waited).map
      fun e => e.withRc errorNoChildren
    closing := n }

/-- The step function. -/
def step (s : Sys) : Act → Option Sys
  | .call i a alloc =>
    match s.clients i with
    | .out _ => some (s.call i a alloc)
    | _ => none
  | .append i =>
    match s.clients i with
    | .filled a => some (s.append i a.entry)
    | _ => none
  | .runOn i =>
    match s.clients i with
    | .appended e => some (s.runOn i e)
    | _ => none
  | .poll i =>
    match s.clients i with
    | .getResult e => some (s.poll i e)
    | _ => none
  | .cmdGet cur pa =>
    if s.daemon = .user ∨ s.daemon = .gone then
      some { s with vars := s.vars.attach cur, daemon := .test pa }
    else none
  | .getNext => s.getNext
  | .signal =>
    match s.daemon with
    | .blocked pa => some { s with daemon := .woken pa }
    | _ => none
  | .resched =>
    match s.daemon with
    | .blocked pa => some { s with daemon := .block pa }
    | _ => none
  | .setResults k rc data alloc =>
    match s.daemon, s.fetched[k]? with
    | .user, some e => some (s.setResults k e rc data alloc)
    | _, _ => none
  | .closeBegin => if s.vars.queues then some s.closeBegin else none
  | .closeSweep =>
    match s.closing with
    | 0 => none
    | n + 1 => some (s.closeSweep n)

/-- Nothing queued, nobody inside, no daemon. -/
def initial : Sys where
  vars := .initial
  cmdhandle := 0
  waiting := []
  done := []
  daemon := .gone
  fetched := []
  clients := fun _ => .out none
  closing := 0
  mem := fun _ => []
  queued := 0

/-- The machine of the command queue. -/
def machine : Machine Sys Act := ⟨initial, step⟩

/-- A command nobody waits for, with one byte of data. -/
def sampleArgs : AddArgs := ⟨10008, 0, .zero, 64, 1, [1]⟩

/-- A command with a block at address `64`, for which its client waits. -/
def sampleWait : AddArgs := ⟨10008, 1, .zero, 64, 1, [1]⟩

/-- A process asks for a command, with the packet and the buffer of a daemon that has started. -/
def sampleGet : Act := .cmdGet firstPid ⟨0, 8192⟩

/-! ### What a step can do -/

/-- The memory in which a call starts. -/
def withBlock (s : Sys) (a : AddArgs) : Sys :=
  { s with mem := Function.update s.mem a.pData a.data }

/-- The steps of the machine, one constructor for each way through the code. -/
inductive Step (s : Sys) : Act → Sys → Prop
  | callNoDaemon {i a alloc r} (hc : s.clients i = .out r) (hq : s.vars.pid = 0) :
      Step s (.call i a alloc) ((s.withBlock a).setClient i (.out (some (0, a.parm))))
  | callNoMemory {i a r} (hc : s.clients i = .out r) (hq : s.vars.pid ≠ 0) :
      Step s (.call i a false) ((s.withBlock a).setClient i (.out (some (negENOMEM, a.parm))))
  | callFilled {i a r} (hc : s.clients i = .out r) (hq : s.vars.pid ≠ 0) :
      Step s (.call i a true) ((s.withBlock a).setClient i (.filled a))
  | append {i a} (hc : s.clients i = .filled a) : Step s (.append i) (s.append i a.entry)
  | runOn {i e} (hc : s.clients i = .appended e) : Step s (.runOn i) (s.runOn i e)
  | pollNone {i e} (hc : s.clients i = .getResult e)
      (hf : s.done.find? (fun pe => pe.parmPacket.hcmd == e.parmPacket.hcmd) = none) :
      Step s (.poll i) s
  | pollTake {i e pe} (hc : s.clients i = .getResult e)
      (hf : s.done.find? (fun pe => pe.parmPacket.hcmd == e.parmPacket.hcmd) = some pe) :
      Step s (.poll i)
        { s.setClient i (.out (some (pe.parmPacket.rc, pe.parmPacket))) with
          done := s.done.eraseP fun pe => pe.parmPacket.hcmd == e.parmPacket.hcmd }
  | cmdGet {cur pa} (hd : s.daemon = .user ∨ s.daemon = .gone) :
      Step s (.cmdGet cur pa) { s with vars := s.vars.attach cur, daemon := .test pa }
  | testEmpty {pa} (hd : s.daemon = .test pa) (hw : s.waiting = []) :
      Step s .getNext { s with daemon := .register pa }
  | testFull {pa} (hd : s.daemon = .test pa) (hw : s.waiting ≠ []) :
      Step s .getNext { s with daemon := .lock pa }
  | register {pa} (hd : s.daemon = .register pa) : Step s .getNext { s with daemon := .block pa }
  | block {pa} (hd : s.daemon = .block pa) : Step s .getNext { s with daemon := .blocked pa }
  | woken {pa} (hd : s.daemon = .woken pa) : Step s .getNext { s with daemon := .lock pa }
  | popNone {pa} (hd : s.daemon = .lock pa) (hw : s.waiting = []) :
      Step s .getNext { s with daemon := .test pa }
  | pop {pa pe rest} (hd : s.daemon = .lock pa) (hw : s.waiting = pe :: rest) :
      Step s .getNext { s with waiting := rest, daemon := .popped pa pe }
  | pushBack {pa pe} (hd : s.daemon = .popped pa pe)
      (hl : pa.cbMaxDataLen < pe.parmPacket.cbCmdDataLen) :
      Step s .getNext { s with waiting := pe :: s.waiting, daemon := .user }
  | deliver {pa pe} (hd : s.daemon = .popped pa pe)
      (hl : ¬ pa.cbMaxDataLen < pe.parmPacket.cbCmdDataLen) :
      Step s .getNext { s with fetched := s.fetched ++ [pe.fetchedBy pa], daemon := .user }
  | signal {pa} (hd : s.daemon = .blocked pa) : Step s .signal { s with daemon := .woken pa }
  | resched {pa} (hd : s.daemon = .blocked pa) : Step s .resched { s with daemon := .block pa }
  | post {k e rc data} (hd : s.daemon = .user) (hk : s.fetched[k]? = some e)
      (hw : e.parmPacket.waited = true) :
      Step s (.setResults k rc data true)
        { s with
          fetched := s.fetched.eraseIdx k
          done := s.done ++ [e.withRc rc]
          mem := Function.update s.mem e.parmPacket.cmdBlockID
            (data.take e.parmPacket.cbCmdDataLen.toNat ++
              (s.mem e.parmPacket.cmdBlockID).drop e.parmPacket.cbCmdDataLen.toNat) }
  | postNothing {k e rc data alloc} (hd : s.daemon = .user) (hk : s.fetched[k]? = some e)
      (hw : e.parmPacket.waited = false ∨ alloc = false) :
      Step s (.setResults k rc data alloc) { s with fetched := s.fetched.eraseIdx k }
  | closeBegin (hq : s.vars.pid ≠ 0) : Step s .closeBegin s.closeBegin
  | closeSweep {n} (hn : s.closing = n + 1) : Step s .closeSweep (s.closeSweep n)

theorem getNext_cases {s s' : Sys} (h : s.getNext = some s') : Step s .getNext s' := by
  unfold getNext at h
  split at h
  case h_1 pa hd =>
    split_ifs at h with hw <;> cases h
    · exact .testEmpty hd (by simpa using hw)
    · exact .testFull hd (by simpa using hw)
  case h_2 pa hd => cases h; exact .register hd
  case h_3 pa hd => cases h; exact .block hd
  case h_4 pa hd => cases h; exact .woken hd
  case h_5 pa hd =>
    split at h <;> rename_i hw <;> cases h
    · exact .popNone hd hw
    · exact .pop hd hw
  case h_6 pa pe hd =>
    split_ifs at h with hl <;> cases h
    · exact .pushBack hd hl
    · exact .deliver hd hl
  case h_7 => cases h

theorem call_cases {s : Sys} {i : ℕ} {a : AddArgs} {alloc : Bool}
    {r : Option (ULONG × CmdParmPacket)} (hc : s.clients i = .out r) :
    Step s (.call i a alloc) (s.call i a alloc) := by
  cases hq : s.vars.queues with
  | false =>
    have : s.call i a alloc = (s.withBlock a).setClient i (.out (some (0, a.parm))) := by
      simp only [call, withBlock, hq, Bool.false_eq_true, ↓reduceIte]
    exact this ▸ .callNoDaemon hc (by simpa [DaemonVars.queues] using hq)
  | true =>
    have hp := DaemonVars.queues_iff.1 hq
    cases alloc with
    | false =>
      have : s.call i a false = (s.withBlock a).setClient i (.out (some (negENOMEM, a.parm))) := by
        simp only [call, withBlock, hq, Bool.false_eq_true, ↓reduceIte]
      exact this ▸ .callNoMemory hc hp
    | true =>
      have : s.call i a true = (s.withBlock a).setClient i (.filled a) := by
        simp only [call, withBlock, hq, ↓reduceIte]
      exact this ▸ .callFilled hc hp

theorem poll_cases {s : Sys} {i : ℕ} {e : CommandListEntry} (hc : s.clients i = .getResult e) :
    Step s (.poll i) (s.poll i e) := by
  unfold poll
  split
  · rename_i hf; exact .pollNone hc hf
  · rename_i hf; exact .pollTake hc hf

theorem setResults_cases {s : Sys} {k : ℕ} {e : CommandListEntry} {rc : ULONG}
    {data : List UInt8} {alloc : Bool} (hd : s.daemon = .user) (hk : s.fetched[k]? = some e) :
    Step s (.setResults k rc data alloc) (s.setResults k e rc data alloc) := by
  unfold setResults
  cases hw : e.parmPacket.waited with
  | false => simpa using Step.postNothing hd hk (.inl hw)
  | true =>
    cases alloc with
    | false => simpa using Step.postNothing hd hk (.inr rfl)
    | true => simpa using Step.post hd hk hw

/-- Every step of the machine is one of the listed ones. -/
theorem step_cases {s s' : Sys} {a : Act} (h : machine.step s a = some s') : Step s a s' := by
  change step s a = some s' at h
  cases a with
  | call i a alloc =>
    simp only [step] at h
    split at h <;> cases h
    exact call_cases ‹_›
  | append i =>
    simp only [step] at h
    split at h <;> cases h
    exact .append ‹_›
  | runOn i =>
    simp only [step] at h
    split at h <;> cases h
    exact .runOn ‹_›
  | poll i =>
    simp only [step] at h
    split at h <;> cases h
    exact poll_cases ‹_›
  | cmdGet cur pa =>
    simp only [step] at h
    split_ifs at h with hd
    cases h
    exact .cmdGet hd
  | getNext => exact getNext_cases h
  | signal =>
    simp only [step] at h
    split at h <;> cases h
    exact .signal ‹_›
  | resched =>
    simp only [step] at h
    split at h <;> cases h
    exact .resched ‹_›
  | setResults k rc data alloc =>
    simp only [step] at h
    split at h <;> cases h
    exact setResults_cases ‹_› ‹_›
  | closeBegin =>
    simp only [step] at h
    split_ifs at h with hq
    cases h
    exact .closeBegin (by simpa using hq)
  | closeSweep =>
    simp only [step] at h
    split at h <;> cases h
    exact .closeSweep ‹_›

end Sys

end LxApi32
