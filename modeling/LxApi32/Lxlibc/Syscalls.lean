import LxApi32.Daemon.Packet

/-!
# System calls

`syscall0` to `syscall6` of lxlibc put the number and the arguments of a system call into a packet,
which the driver takes to the kernel.  For `execve`, which does not return, `LX_utl_syscall` sets a
flag in the packet before the call, and takes it back behind the call; a stub that finds the flag
ends the process.

* `lxUtlSyscall_of_supported` : up to five arguments the kernel gets exactly the arguments of the
  stub, and the flag stays if it does not return.
* `lxUtlSyscall_of_six` : the flag stays also when there are six arguments, which the kernel never
  gets.
* `Syscall.returnsToCaller_iff` : system calls return to the caller, exactly if they have five
  arguments at most, or do not reach the driver.
-/

namespace LxApi32

/-- `LXIOCPA_SYS_CALL` -/
structure SysCallPacket where
  /-- `result` -/
  result : ULONG := 0
  /-- `sysstate` -/
  sysstate : ULONG := 0
  /-- `retflags` -/
  retflags : ULONG := 0
  /-- `syscallnum` -/
  syscallnum : ULONG := 0
  /-- `argc` -/
  argc : ULONG := 0
  /-- `arg1` -/
  arg1 : ULONG := 0
  /-- `arg2` -/
  arg2 : ULONG := 0
  /-- `arg3` -/
  arg3 : ULONG := 0
  /-- `arg4` -/
  arg4 : ULONG := 0
  /-- `arg5` -/
  arg5 : ULONG := 0
  /-- `arg6` -/
  arg6 : ULONG := 0
  deriving DecidableEq, Repr

/-- `LX_SYSCALL_RETFLAG_EXITPROCESS` -/
def retflagExitprocess : ULONG := 1

/-- `RPDONE` -/
def rpDone : ULONG := 0x0100

/-- `RPERR_PARAMETER` -/
def rpErrParameter : ULONG := 0x8013

/-- What the kernel does: its result for a number and arguments, if it returns. -/
abbrev SysKernel := ULONG → List ULONG → Option ULONG

/-- What system calls depend on. -/
structure SysEnv where
  /-- `lxapi_rt_hfile` is not 0. -/
  hfile : Bool
  /-- The request gets to the driver, and its packet can be read and written. -/
  packet : Bool
  /-- The kernel. -/
  kernel : SysKernel
  /-- `lx_sysstate` of the driver. -/
  sysstate : ULONG

/-! ### The driver -/

/-- `LX_SYSCALL0` to `LX_SYSCALL5`, which hand the arguments to the kernel in registers, and what
`LX_utl_syscall` does when they return: the packet as it is left, and the result. -/
def sysCall (kernel : SysKernel) (pa : SysCallPacket) (args : List ULONG) :
    SysCallPacket × Option ULONG :=
  match kernel pa.syscallnum args with
  | none => (pa, none)
  | some result =>
    ({ pa with result, retflags := pa.retflags &&& ~~~retflagExitprocess }, some result)

/-- `LX_utl_syscall`: the packet as it is left, and what it returns, if it does. -/
def lxUtlSyscall (kernel : SysKernel) (pa : SysCallPacket) : SysCallPacket × Option ULONG :=
  let pa := { pa with retflags := pa.retflags ||| retflagExitprocess }
  match pa.argc.toNat with
  | 0 => sysCall kernel pa []
  | 1 => sysCall kernel pa [pa.arg1]
  | 2 => sysCall kernel pa [pa.arg1, pa.arg2]
  | 3 => sysCall kernel pa [pa.arg1, pa.arg2, pa.arg3]
  | 4 => sysCall kernel pa [pa.arg1, pa.arg2, pa.arg3, pa.arg4]
  | 5 => sysCall kernel pa [pa.arg1, pa.arg2, pa.arg3, pa.arg4, pa.arg5]
  | _ => (pa, some negENOENT)

/-- `ioctl_sys` for `LXIOCFN_SYS_CALL`: the packet as it is left, and the status of the request, if
it ends. -/
def ioctlSys (env : SysEnv) (pa : SysCallPacket) : SysCallPacket × Option ULONG :=
  if env.packet then
    match lxUtlSyscall env.kernel pa with
    | (pa, none) => (pa, none)
    | (pa, some result) => ({ pa with result, sysstate := env.sysstate }, some rpDone)
  else (pa, some (rpErrParameter ||| rpDone))

/-! ### The stubs -/

/-- How a stub ends. -/
inductive StubEnd
  /-- It returns to its caller. -/
  | ret (result : ULONG)
  /-- It calls `DosExit`. -/
  | dosExit
  deriving DecidableEq, Repr

/-- What a stub does with its packet: how it ends, and what it writes to `lxapi_sysstate`.  A
request whose process image is replaced ends without an error, with the packet as it is left. -/
def sysStub (env : SysEnv) (sysc : SysCallPacket) : StubEnd × Option ULONG :=
  if env.hfile then
    match ioctlSys env sysc with
    | (sysc, rc) =>
      if rc.getD rpDone &&& 0x8000 = 0 then
        (if sysc.retflags &&& retflagExitprocess ≠ 0 then .dosExit else .ret sysc.result,
          some sysc.sysstate)
      else (.ret sysc.result, none)
  else (.ret negENOENT, none)

/-- `SYSCALL_PACKET0` -/
def syscallPacket0 (num : ULONG) : SysCallPacket :=
  { result := negENOENT, syscallnum := num, argc := 0 }

/-- `SYSCALL_PACKET1` -/
def syscallPacket1 (num a1 : ULONG) : SysCallPacket :=
  { result := negENOENT, syscallnum := num, argc := 1, arg1 := a1 }

/-- `SYSCALL_PACKET2` -/
def syscallPacket2 (num a1 a2 : ULONG) : SysCallPacket :=
  { result := negENOENT, syscallnum := num, argc := 2, arg1 := a1, arg2 := a2 }

/-- `SYSCALL_PACKET3` -/
def syscallPacket3 (num a1 a2 a3 : ULONG) : SysCallPacket :=
  { result := negENOENT, syscallnum := num, argc := 3, arg1 := a1, arg2 := a2, arg3 := a3 }

/-- `SYSCALL_PACKET4` -/
def syscallPacket4 (num a1 a2 a3 a4 : ULONG) : SysCallPacket :=
  { result := negENOENT, syscallnum := num, argc := 4, arg1 := a1, arg2 := a2, arg3 := a3,
    arg4 := a4 }

/-- `SYSCALL_PACKET5` -/
def syscallPacket5 (num a1 a2 a3 a4 a5 : ULONG) : SysCallPacket :=
  { result := negENOENT, syscallnum := num, argc := 5, arg1 := a1, arg2 := a2, arg3 := a3,
    arg4 := a4, arg5 := a5 }

/-- `SYSCALL_PACKET6` -/
def syscallPacket6 (num a1 a2 a3 a4 a5 a6 : ULONG) : SysCallPacket :=
  { result := negENOENT, syscallnum := num, argc := 6, arg1 := a1, arg2 := a2, arg3 := a3,
    arg4 := a4, arg5 := a5, arg6 := a6 }

/-- `syscall0` -/
def syscall0 (env : SysEnv) (num : ULONG) : StubEnd × Option ULONG :=
  sysStub env (syscallPacket0 num)

/-- `syscall1` -/
def syscall1 (env : SysEnv) (num a1 : ULONG) : StubEnd × Option ULONG :=
  sysStub env (syscallPacket1 num a1)

/-- `syscall2` -/
def syscall2 (env : SysEnv) (num a1 a2 : ULONG) : StubEnd × Option ULONG :=
  sysStub env (syscallPacket2 num a1 a2)

/-- `syscall3` -/
def syscall3 (env : SysEnv) (num a1 a2 a3 : ULONG) : StubEnd × Option ULONG :=
  sysStub env (syscallPacket3 num a1 a2 a3)

/-- `syscall4` -/
def syscall4 (env : SysEnv) (num a1 a2 a3 a4 : ULONG) : StubEnd × Option ULONG :=
  sysStub env (syscallPacket4 num a1 a2 a3 a4)

/-- `syscall5` -/
def syscall5 (env : SysEnv) (num a1 a2 a3 a4 a5 : ULONG) : StubEnd × Option ULONG :=
  sysStub env (syscallPacket5 num a1 a2 a3 a4 a5)

/-- `syscall6` -/
def syscall6 (env : SysEnv) (num a1 a2 a3 a4 a5 a6 : ULONG) : StubEnd × Option ULONG :=
  sysStub env (syscallPacket6 num a1 a2 a3 a4 a5 a6)

/-- A call of a stub. -/
inductive Syscall
  | syscall0 (num : ULONG)
  | syscall1 (num a1 : ULONG)
  | syscall2 (num a1 a2 : ULONG)
  | syscall3 (num a1 a2 a3 : ULONG)
  | syscall4 (num a1 a2 a3 a4 : ULONG)
  | syscall5 (num a1 a2 a3 a4 a5 : ULONG)
  | syscall6 (num a1 a2 a3 a4 a5 a6 : ULONG)
  deriving DecidableEq, Repr

namespace Syscall

/-- The stub does it. -/
def run (env : SysEnv) : Syscall → StubEnd × Option ULONG
  | syscall0 num => LxApi32.syscall0 env num
  | syscall1 num a1 => LxApi32.syscall1 env num a1
  | syscall2 num a1 a2 => LxApi32.syscall2 env num a1 a2
  | syscall3 num a1 a2 a3 => LxApi32.syscall3 env num a1 a2 a3
  | syscall4 num a1 a2 a3 a4 => LxApi32.syscall4 env num a1 a2 a3 a4
  | syscall5 num a1 a2 a3 a4 a5 => LxApi32.syscall5 env num a1 a2 a3 a4 a5
  | syscall6 num a1 a2 a3 a4 a5 a6 => LxApi32.syscall6 env num a1 a2 a3 a4 a5 a6

/-- Its packet. -/
def packet : Syscall → SysCallPacket
  | syscall0 num => syscallPacket0 num
  | syscall1 num a1 => syscallPacket1 num a1
  | syscall2 num a1 a2 => syscallPacket2 num a1 a2
  | syscall3 num a1 a2 a3 => syscallPacket3 num a1 a2 a3
  | syscall4 num a1 a2 a3 a4 => syscallPacket4 num a1 a2 a3 a4
  | syscall5 num a1 a2 a3 a4 a5 => syscallPacket5 num a1 a2 a3 a4 a5
  | syscall6 num a1 a2 a3 a4 a5 a6 => syscallPacket6 num a1 a2 a3 a4 a5 a6

/-- The number. -/
def num : Syscall → ULONG
  | syscall0 num | syscall1 num _ | syscall2 num .. | syscall3 num .. | syscall4 num ..
  | syscall5 num .. | syscall6 num .. => num

/-- The arguments. -/
def args : Syscall → List ULONG
  | syscall0 _ => []
  | syscall1 _ a1 => [a1]
  | syscall2 _ a1 a2 => [a1, a2]
  | syscall3 _ a1 a2 a3 => [a1, a2, a3]
  | syscall4 _ a1 a2 a3 a4 => [a1, a2, a3, a4]
  | syscall5 _ a1 a2 a3 a4 a5 => [a1, a2, a3, a4, a5]
  | syscall6 _ a1 a2 a3 a4 a5 a6 => [a1, a2, a3, a4, a5, a6]

/-- The driver has a form for the arguments. -/
def Supported (c : Syscall) : Prop := c.args.length ≤ 5

/-- The call gets to `LX_utl_syscall`. -/
def Reaches (env : SysEnv) : Prop := env.hfile = true ∧ env.packet = true

/-- A system call returns to its caller. -/
structure ReturnsToCaller (env : SysEnv) (c : Syscall) : Prop where
  /-- If the driver returns for it, so does the stub, with the kernel's result for exactly these
  arguments, or with an error if there is no form for them. -/
  returns : Reaches env → ∀ r ∈ (lxUtlSyscall env.kernel c.packet).2, ∃ result,
    (c.run env).1 = .ret result ∧
      (c.Supported → env.kernel c.num c.args = some result) ∧
      (¬ c.Supported → result.toInt < 0)
  /-- The process is ended only if the driver does not return. -/
  exits : (c.run env).1 = .dosExit →
    Reaches env ∧ (lxUtlSyscall env.kernel c.packet).2 = none

variable {env : SysEnv} {c : Syscall} {pa : SysCallPacket}

theorem run_eq (env : SysEnv) (c : Syscall) : c.run env = sysStub env c.packet := by
  cases c <;> rfl

end Syscall

/-- **Up to five arguments** the kernel gets them as they are, and the flag is left if it does not
return. -/
theorem lxUtlSyscall_of_supported (kernel : SysKernel) {c : Syscall} (h : c.Supported) :
    lxUtlSyscall kernel c.packet =
      match kernel c.num c.args with
      | none => ({ c.packet with retflags := 1 }, none)
      | some result => ({ c.packet with result, retflags := 0 }, some result) := by
  have hcall : lxUtlSyscall kernel c.packet =
      sysCall kernel { c.packet with retflags := 1 } c.args := by
    have hflags : (0 : ULONG) ||| retflagExitprocess = 1 := by decide
    cases c with
    | syscall0 | syscall1 | syscall2 | syscall3 | syscall4 | syscall5 =>
      rw [← hflags]
      rfl
    | syscall6 => exact absurd h (by simp [Syscall.Supported, Syscall.args])
  have hnum : c.packet.syscallnum = c.num := by cases c <;> rfl
  have hcleared : (1 : ULONG) &&& ~~~retflagExitprocess = 0 := by decide
  rw [hcall]
  unfold sysCall
  dsimp only
  rw [hnum, hcleared]

/-- Six arguments are refused, and the flag is left as well. -/
theorem lxUtlSyscall_of_six (kernel : SysKernel) {c : Syscall} (h : ¬ c.Supported) :
    lxUtlSyscall kernel c.packet = ({ c.packet with retflags := 1 }, some negENOENT) := by
  cases c with
  | syscall0 | syscall1 | syscall2 | syscall3 | syscall4 | syscall5 =>
    exact absurd (by simp [Syscall.Supported, Syscall.args]) h
  | syscall6 =>
    have hflags : (0 : ULONG) ||| retflagExitprocess = 1 := by decide
    rw [← hflags]
    rfl

namespace Syscall

variable {env : SysEnv} {c : Syscall}

/-- A call that does not get to the driver is refused. -/
theorem run_of_not_reaches (h : ¬ Reaches env) : (c.run env).1 = .ret negENOENT := by
  have hresult : c.packet.result = negENOENT := by cases c <;> rfl
  rw [run_eq]
  unfold sysStub ioctlSys
  cases hfile : env.hfile with
  | false => rfl
  | true =>
    have hpacket : env.packet = false := by simpa [Reaches, hfile] using h
    simp [hpacket, rpErrParameter, rpDone, hresult]

/-- A call that gets to the driver. -/
theorem run_of_reaches (h : Reaches env) :
    (c.run env).1 = match lxUtlSyscall env.kernel c.packet with
      | (pa, none) => if pa.retflags &&& retflagExitprocess ≠ 0 then .dosExit else .ret pa.result
      | (pa, some result) =>
        if pa.retflags &&& retflagExitprocess ≠ 0 then .dosExit else .ret result := by
  rw [run_eq]
  unfold sysStub ioctlSys
  rw [h.1, h.2]
  rcases lxUtlSyscall env.kernel c.packet with ⟨pa, _ | result⟩ <;> simp [rpDone]

theorem exit_flag : (1 : ULONG) &&& retflagExitprocess ≠ 0 := by decide

theorem no_exit_flag : ¬ (0 : ULONG) &&& retflagExitprocess ≠ 0 := by decide

/-- **System calls return to the caller**, exactly if they have five arguments at most, or do not
get to the driver. -/
theorem returnsToCaller_iff (env : SysEnv) (c : Syscall) :
    c.ReturnsToCaller env ↔ c.Supported ∨ ¬ Reaches env := by
  by_cases hreach : Reaches env
  · rw [or_iff_left (not_not_intro hreach)]
    by_cases hsupp : c.Supported
    · refine iff_of_true ?_ hsupp
      have hrun := run_of_reaches (c := c) hreach
      have hdriver := lxUtlSyscall_of_supported env.kernel hsupp
      cases hkernel : env.kernel c.num c.args with
      | none =>
        rw [hkernel] at hdriver
        dsimp only at hdriver
        refine ⟨fun _ r hr => ?_, fun _ => ⟨hreach, by rw [hdriver]⟩⟩
        rw [hdriver] at hr
        cases hr
      | some result =>
        rw [hkernel] at hdriver
        dsimp only at hdriver
        rw [hdriver] at hrun
        dsimp only at hrun
        rw [if_neg no_exit_flag] at hrun
        refine ⟨fun _ _ _ => ⟨result, hrun, fun _ => hkernel, (absurd hsupp ·)⟩, fun hexit => ?_⟩
        cases hrun.symm.trans hexit
    · refine iff_of_false (fun h => ?_) hsupp
      have hdriver := lxUtlSyscall_of_six env.kernel hsupp
      have hrun := run_of_reaches (c := c) hreach
      rw [hdriver] at hrun
      dsimp only at hrun
      rw [if_pos exit_flag] at hrun
      obtain ⟨result, hret, -⟩ := h.returns hreach negENOENT (by rw [hdriver]; rfl)
      cases hrun.symm.trans hret
  · refine iff_of_true ⟨fun h => absurd h hreach, fun hexit => ?_⟩ (.inr hreach)
    cases (run_of_not_reaches hreach).symm.trans hexit

/-- A call with six arguments ends the process, though the driver returns. -/
theorem not_returnsToCaller_six :
    ¬ (syscall6 192 0 4096 3 2 3 0).ReturnsToCaller ⟨true, true, fun _ _ => some 0, 0⟩ := by
  intro h
  have hdriver := (h.exits (by decide)).2
  exact absurd hdriver (by decide)

end Syscall

end LxApi32
