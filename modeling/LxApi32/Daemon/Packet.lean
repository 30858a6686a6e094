import Mathlib.Data.BitVec

/-!
# The command packet of the daemon interface

The driver hands a file operation to the daemon process as a parameter packet
(`LXIOCPA_DMN_CMDPARMPACKET` of `lxdaemon.h`) and a data block.  This file has the packet, the
command numbers the driver and the daemon test for, the queue entry `lx_command_list_entry`
and the counter `lx_daemon_cmdhandle` from which commands take their handles.

* `nextCmdhandle` : the increment of `LX_dmn_add_command`, which skips `0`.
* `cmdhandleAt n` : the counter after `n` commands; `cmdhandleAt_toNat` gives it in closed form
  and `cmdhandleAt_inj` says within which window handles are different.
-/

namespace LxApi32

/-- `ULONG` of the 32-bit code. -/
abbrev ULONG := BitVec 32

/-- `-ENOMEM` as a `ULONG`. -/
def negENOMEM : ULONG := -12

/-- `-ENOENT` as a `ULONG`. -/
def negENOENT : ULONG := -2

/-- `ERROR_NO_CHILDREN`, the result `LX_daemon_closed` gives to the commands it answers. -/
def errorNoChildren : ULONG := 228

/-- `LX_DMN_CMD_SHUTDOWN` -/
def cmdShutdown : ULONG := 10001

/-- `LX_DMN_CMD_INC_DATAPACKETLEN` -/
def cmdIncDatapacketlen : ULONG := 10002

/-- `LX_DMN_CMD_RESTART` -/
def cmdRestart : ULONG := 10007

/-- `LXIOCPA_DMN_CMDPARMPACKET`.  The first two fields belong to the daemon, the others are
set by the driver and not changed on the daemon's side. -/
structure CmdParmPacket where
  /-- Return code of the executed command. -/
  rc : ULONG
  /-- Maximum size of the data packet. -/
  cbMaxDataLen : ULONG
  /-- Command to execute. -/
  cmd : ULONG
  /-- Handle of the command. -/
  hcmd : ULONG
  /-- The data block of the waiting client, `0` for a command nobody waits for. -/
  cmdBlockID : ULONG
  /-- Size of the data needed for the command. -/
  cbCmdDataLen : ULONG
  deriving DecidableEq, Repr

namespace CmdParmPacket

/-- Some client waits for the result. -/
def waited (p : CmdParmPacket) : Bool := p.cmdBlockID != 0

/-- The packet with all fields `0`. -/
def zero : CmdParmPacket := ⟨0, 0, 0, 0, 0, 0⟩

end CmdParmPacket

/-- `struct lx_command_list_entry`: a packet and the copy of the data that
`LX_dmn_add_command` puts behind it for a command nobody waits for.  `ticket` is a history
variable, the number of commands queued before this one; no step of the model tests it. -/
structure CommandListEntry where
  /-- The packet. -/
  parmPacket : CmdParmPacket
  /-- The copied data. -/
  data : List UInt8
  /-- How many commands were queued before this one. -/
  ticket : ℕ
  deriving DecidableEq, Repr

/-- The driver-side part of a queue entry, which identifies the command. -/
structure CommandKey where
  /-- Command to execute. -/
  cmd : ULONG
  /-- Handle of the command. -/
  hcmd : ULONG
  /-- The data block of the waiting client. -/
  cmdBlockID : ULONG
  /-- Size of the data. -/
  cbCmdDataLen : ULONG
  /-- How many commands were queued before this one. -/
  ticket : ℕ
  deriving DecidableEq, Repr

namespace CommandListEntry

/-- The driver-side part of an entry. -/
def key (e : CommandListEntry) : CommandKey :=
  ⟨e.parmPacket.cmd, e.parmPacket.hcmd, e.parmPacket.cmdBlockID, e.parmPacket.cbCmdDataLen,
    e.ticket⟩

/-- The entry with another return code. -/
def withRc (e : CommandListEntry) (rc : ULONG) : CommandListEntry :=
  { e with parmPacket := { e.parmPacket with rc := rc } }

@[simp] theorem key_withRc (e : CommandListEntry) (rc : ULONG) : (e.withRc rc).key = e.key := rfl

@[simp] theorem key_hcmd (e : CommandListEntry) : e.key.hcmd = e.parmPacket.hcmd := rfl

@[simp] theorem key_cmdBlockID (e : CommandListEntry) :
    e.key.cmdBlockID = e.parmPacket.cmdBlockID := rfl

end CommandListEntry

/-- Some client waits for the command. -/
def CommandKey.waited (k : CommandKey) : Prop := k.cmdBlockID ≠ 0

instance : DecidablePred CommandKey.waited :=
  fun k => inferInstanceAs (Decidable (k.cmdBlockID ≠ 0))

/-! ### Handles -/

/-- `lx_daemon_cmdhandle++; if(0==lx_daemon_cmdhandle) lx_daemon_cmdhandle++;` -/
def nextCmdhandle (h : ULONG) : ULONG := if h + 1 = 0 then h + 1 + 1 else h + 1

/-- The counter `lx_daemon_cmdhandle` after `n` commands were queued. -/
def cmdhandleAt : ℕ → ULONG
  | 0 => 0
  | n + 1 => nextCmdhandle (cmdhandleAt n)

/-- The number of different handles. -/
abbrev handlePeriod : ℕ := 2 ^ 32 - 1

theorem nextCmdhandle_toNat (h : ULONG) : (nextCmdhandle h).toNat = h.toNat % handlePeriod + 1 := by
  have hlt := h.isLt
  have h0 : (0 : ULONG).toNat = 0 := rfl
  have h1 : (1 : ULONG).toNat = 1 := rfl
  unfold nextCmdhandle handlePeriod
  split
  · rename_i hz
    have := congrArg BitVec.toNat hz
    rw [BitVec.toNat_add, h0, h1] at this
    rw [BitVec.toNat_add, hz, h0, h1]
    omega
  · rename_i hz
    have : (h + 1).toNat ≠ 0 := fun h' => hz (BitVec.eq_of_toNat_eq h')
    rw [BitVec.toNat_add, h1] at this ⊢
    omega

/-- The `n`-th command has handle `n % (2 ^ 32 - 1) + 1`. -/
theorem cmdhandleAt_toNat (n : ℕ) : (cmdhandleAt (n + 1)).toNat = n % handlePeriod + 1 := by
  induction n with
  | zero => rfl
  | succ n ih =>
    rw [cmdhandleAt, nextCmdhandle_toNat, ih]
    simp only [handlePeriod]
    omega

theorem cmdhandleAt_ne_zero (n : ℕ) : cmdhandleAt (n + 1) ≠ 0 := by
  intro h
  have := cmdhandleAt_toNat n
  rw [h] at this
  simp at this

/-- Fewer than `2 ^ 32 - 1` commands apart, handles are different. -/
theorem cmdhandleAt_inj {m n : ℕ} (hm : m < n + handlePeriod) (hn : n < m + handlePeriod)
    (h : cmdhandleAt (m + 1) = cmdhandleAt (n + 1)) : m = n := by
  have := congrArg BitVec.toNat h
  rw [cmdhandleAt_toNat, cmdhandleAt_toNat] at this
  simp only [handlePeriod] at *
  omega

/-- ... and exactly `2 ^ 32 - 1` commands apart they are equal. -/
theorem cmdhandleAt_period (n : ℕ) :
    cmdhandleAt (n + handlePeriod + 1) = cmdhandleAt (n + 1) := by
  apply BitVec.eq_of_toNat_eq
  rw [cmdhandleAt_toNat, cmdhandleAt_toNat, Nat.add_mod_right]

end LxApi32
