import LxApi32.Daemon.Queue
import LxApi32.Lib.Issued

/-!
# The daemon's command loop

`commandLoop` of the daemon has one packet, `param`, for all commands, and one buffer, `pData`,
which grows when the driver answers `CMDGET` with `INC_DATAPACKETLEN`.  The machine below is the
loop, one action for each of its ioctls and for the execution of a command, together with the
driver's `CMDGET`.  An ioctl may fail at any time; a failed one leaves `param` as it was.

* `CommandLoop.always_fits_iff` : the buffer is large enough for what the driver copies exactly
  as long as no growth of the buffer fails.
* `CommandLoop.sent_nodup` : the result of a command is sent once, if no `CMDGET` fails while
  `param` still holds a command for which somebody waits.
-/

namespace LxApi32

/-- `INITAL_DATA_LEN` -/
def initialDataLen : ULONG := 4096

/-- `INCR_DATA_LEN` -/
def incrDataLen : ULONG := 4096

/-- The commands in the table `lx_cmds`, in its order. -/
def lxCmds : List ULONG :=
  [60, 67, 80, 83, 104, 144, 201, 204, 223, 227, 256, 257, 263, 264, 265, 270, 272, 273, 275, 279,
    281, 282, 286, 10009, 10010, 10008, 10011, 10012, 10006, cmdIncDatapacketlen, 10005, 10004]

namespace CommandLoop

/-- Where the daemon stands in `commandLoop`. -/
inductive Pc
  /-- At the test of the `while`. -/
  | head
  /-- After `CMDGET`, about to execute. -/
  | fetched
  /-- About to send the result. -/
  | executed
  /-- After the loop, before the last `CMDSETRESULTS`. -/
  | ended
  /-- The function has returned. -/
  | finished
  deriving DecidableEq, Repr

/-- The daemon's variables and the driver's waiting list. -/
structure St where
  /-- `param` -/
  param : CmdParmPacket
  /-- The global `dataLen`. -/
  dataLen : ULONG
  /-- The size of the block `pData` points to. -/
  size : ℕ
  /-- The point in the loop. -/
  pc : Pc
  /-- `lx_waiting_command_list` -/
  waiting : List CommandListEntry
  /-- The number of commands queued so far, a history variable. -/
  queued : ℕ
  /-- Which command was copied to `param` last, a history variable. -/
  ticket : ℕ
  /-- The handles with a block that were sent in `CMDSETRESULTS`, and the commands they belong
  to, a history variable. -/
  sent : List (ULONG × ℕ)
  deriving DecidableEq, Repr

/-- A step. -/
inductive Act
  /-- A client queues a command. -/
  | add (e : CommandListEntry)
  /-- `CMDGET`; if it is `ok` a command is waiting. -/
  | cmdGet (ok : Bool)
  /-- `executeNewCommand`; `rc` is what the command returns, for `INC_DATAPACKETLEN` the result
  of `DosAllocMem`. -/
  | execute (rc : ULONG)
  /-- `CMDSETRESULTS`; whether it is `ok` makes no difference to the daemon. -/
  | setResults (ok : Bool)
  /-- The test of the `while` fails. -/
  | leave
  /-- The `CMDSETRESULTS` after the loop. -/
  | final (ok : Bool)
  deriving DecidableEq, Repr

/-- What the driver leaves in the daemon's packet when it has taken `pe` off the list. -/
def cmdGetPacket (pa : CmdParmPacket) (pe : CommandListEntry) : CmdParmPacket :=
  if pa.cbMaxDataLen < pe.parmPacket.cbCmdDataLen then
    { pa with cmd := cmdIncDatapacketlen, hcmd := 0, cmdBlockID := 0 }
  else (pe.fetchedBy ⟨pa.rc, pa.cbMaxDataLen⟩).parmPacket

namespace St

/-- `increaseDataPacketLength`, `rc` being the result of `DosAllocMem`.  A failure takes back
the growth of `dataLen`, but not that of `param.cbMaxDataLen`. -/
def increaseDataPacketLength (s : St) (rc : ULONG) : St :=
  let dataLen := s.dataLen + incrDataLen
  let param := { s.param with cbMaxDataLen := dataLen, rc := rc }
  if rc = 0 then { s with param := param, dataLen := dataLen, size := dataLen.toNat }
  else { s with param := param }

/-- `executeNewCommand` -/
def executeNewCommand (s : St) (rc : ULONG) : St :=
  if s.param.cmd = cmdIncDatapacketlen then s.increaseDataPacketLength rc
  else if s.param.cmd ∈ lxCmds then { s with param := { s.param with rc := rc } }
  else { s with param := { s.param with rc := 1 } }

/-- The iteration up to the end of `CMDGET`, which has found the entry `pe`. -/
def cmdGet (s : St) (pe : CommandListEntry) (rest : List CommandListEntry) : St :=
  let pa := { s.param with rc := 0, cmd := 0 }
  let param := cmdGetPacket pa pe
  { s with
    param := param
    ticket := if pa.cbMaxDataLen < pe.parmPacket.cbCmdDataLen then s.ticket else pe.ticket
    waiting := if pa.cbMaxDataLen < pe.parmPacket.cbCmdDataLen then pe :: rest else rest
    pc := if param.cmd = cmdRestart then .ended else .fetched }

/-- A `CMDSETRESULTS` that sends `param`. -/
def send (s : St) : St :=
  { s with sent := if s.param.waited then s.sent ++ [(s.param.hcmd, s.ticket)] else s.sent }

/-- `main` up to the first growth of the buffer. -/
def start : St where
  param := .zero
  dataLen := initialDataLen
  size := 0
  pc := .head
  waiting := []
  queued := 0
  ticket := 0
  sent := []

end St

/-- The step function. -/
def step (s : St) : Act → Option St
  | .add e => some { s with
      waiting := s.waiting ++ [e.queuedAs (cmdhandleAt (s.queued + 1)) s.queued]
      queued := s.queued + 1 }
  | .cmdGet ok =>
    if s.pc = .head ∧ s.param.cmd ≠ cmdShutdown then
      if ok then
        match s.waiting with
        | [] => none
        | pe :: rest => some (s.cmdGet pe rest)
      else some { s with param := { s.param with rc := 0, cmd := 0 }, pc := .fetched }
    else none
  | .execute rc =>
    if s.pc = .fetched then some { s.executeNewCommand rc with pc := .executed } else none
  | .setResults _ => if s.pc = .executed then some { s.send with pc := .head } else none
  | .leave =>
    if s.pc = .head ∧ s.param.cmd = cmdShutdown then some { s with pc := .ended } else none
  | .final _ =>
    if s.pc = .ended then
      some { s.send with param := { s.param with rc := 0 }, pc := .finished }
    else none

/-- The machine of the command loop.  `main` enters the loop only if its first growth of the
buffer succeeds. -/
def machine : Machine St Act := ⟨St.start.increaseDataPacketLength 0, step⟩

/-- The steps of the machine. -/
inductive Step (s : St) : Act → St → Prop
  | add (e : CommandListEntry) :
      Step s (.add e) { s with
        waiting := s.waiting ++ [e.queuedAs (cmdhandleAt (s.queued + 1)) s.queued]
        queued := s.queued + 1 }
  | cmdGet {pe rest} (hpc : s.pc = .head) (hw : s.waiting = pe :: rest) :
      Step s (.cmdGet true) (s.cmdGet pe rest)
  | cmdGetFails (hpc : s.pc = .head) :
      Step s (.cmdGet false) { s with param := { s.param with rc := 0, cmd := 0 }, pc := .fetched }
  | execute (rc : ULONG) (hpc : s.pc = .fetched) :
      Step s (.execute rc) { s.executeNewCommand rc with pc := .executed }
  | setResults (ok : Bool) (hpc : s.pc = .executed) :
      Step s (.setResults ok) { s.send with pc := .head }
  | leave (hpc : s.pc = .head) : Step s .leave { s with pc := .ended }
  | final (ok : Bool) (hpc : s.pc = .ended) :
      Step s (.final ok) { s.send with param := { s.param with rc := 0 }, pc := .finished }

theorem step_cases {s s' : St} {a : Act} (h : machine.step s a = some s') : Step s a s' := by
  change step s a = some s' at h
  cases a with
  | add e => cases h; exact .add e
  | cmdGet ok =>
    simp only [step] at h
    split_ifs at h with hpc hok
    · split at h <;> cases h
      subst hok
      exact .cmdGet hpc.1 ‹_›
    · cases h
      obtain rfl : ok = false := by simpa using hok
      exact .cmdGetFails hpc.1
  | execute rc =>
    simp only [step] at h
    split_ifs at h with hpc
    cases h
    exact .execute rc hpc
  | setResults ok =>
    simp only [step] at h
    split_ifs at h with hpc
    cases h
    exact .setResults ok hpc
  | leave =>
    simp only [step] at h
    split_ifs at h with hpc
    cases h
    exact .leave hpc.1
  | final ok =>
    simp only [step] at h
    split_ifs at h with hpc
    cases h
    exact .final ok hpc

/-! ### The size of the buffer -/

/-- The entry whose data a `CMDGET` would copy into the buffer now. -/
def St.copying (s : St) : List CommandListEntry :=
  match s.pc, s.waiting with
  | .head, pe :: _ => if s.param.cbMaxDataLen < pe.parmPacket.cbCmdDataLen then [] else [pe]
  | _, _ => []

/-- What the driver is told is not more than the size of the buffer, and what it copies fits. -/
def Fits (s : St) : Prop :=
  s.param.cbMaxDataLen.toNat ≤ s.size ∧
    ∀ pe ∈ s.copying, pe.parmPacket.cbCmdDataLen.toNat ≤ s.size

/-- A growth of the buffer succeeds, unless the sum of the lengths wraps. -/
def Grows (s : St) : Act → Prop
  | .execute rc => s.param.cmd = cmdIncDatapacketlen →
      rc = 0 ∨ (s.dataLen + incrDataLen).toNat < s.dataLen.toNat
  | _ => True

/-- The invariant: the two copies of the length agree, or the one the driver sees is smaller. -/
structure FitsInv (s : St) : Prop where
  /-- The daemon knows the size of its buffer. -/
  size_eq : s.size = s.dataLen.toNat
  /-- The driver does not overestimate it. -/
  le : s.param.cbMaxDataLen.toNat ≤ s.size

theorem FitsInv.fits {s : St} (h : FitsInv s) : Fits s := by
  refine ⟨h.le, ?_⟩
  intro pe hpe
  have hle : ¬ s.param.cbMaxDataLen < pe.parmPacket.cbCmdDataLen := by
    unfold St.copying at hpe
    split at hpe
    · split_ifs at hpe with hlt
      · cases hpe
      · obtain rfl := List.mem_singleton.1 hpe
        exact hlt
    · cases hpe
  exact (BitVec.not_lt.1 hle).trans h.le

@[simp] theorem cbMaxDataLen_cmdGetPacket (pa : CmdParmPacket) (pe : CommandListEntry) :
    (cmdGetPacket pa pe).cbMaxDataLen = pa.cbMaxDataLen := by
  unfold cmdGetPacket
  split_ifs <;> rfl

/-- The sum of the two lengths is at most the first one exactly if it wraps. -/
theorem add_incrDataLen_le_iff (n : ULONG) :
    (n + incrDataLen).toNat ≤ n.toNat ↔ (n + incrDataLen).toNat < n.toNat := by
  have h : incrDataLen.toNat = 4096 := rfl
  have := n.isLt
  rw [BitVec.toNat_add, h]
  omega

theorem FitsInv.congr {s s' : St} (h : FitsInv s) (hd : s'.dataLen = s.dataLen)
    (hs : s'.size = s.size) (hp : s'.param.cbMaxDataLen = s.param.cbMaxDataLen) : FitsInv s' := by
  constructor
  · rw [hs, hd, h.size_eq]
  · rw [hs, hp]
    exact h.le

/-- The execution of a command keeps the invariant exactly if a growth succeeds. -/
theorem fitsInv_execute {s : St} (h : FitsInv s) (rc : ULONG) :
    (Grows s (.execute rc) → FitsInv (s.executeNewCommand rc)) ∧
      ((s.executeNewCommand rc).param.cbMaxDataLen.toNat ≤ (s.executeNewCommand rc).size →
        Grows s (.execute rc)) := by
  unfold St.executeNewCommand
  split_ifs with hinc hin
  · unfold St.increaseDataPacketLength
    split_ifs with hrc
    · exact ⟨fun _ => ⟨rfl, le_rfl⟩, fun _ _ => .inl hrc⟩
    · -- only the length that the driver sees has grown
      have hiff := add_incrDataLen_le_iff s.dataLen
      have hle : (s.dataLen + incrDataLen).toNat ≤ s.size ↔ Grows s (.execute rc) := by
        rw [h.size_eq, hiff]
        exact ⟨fun hw _ => .inr hw, fun hg => (hg hinc).resolve_left hrc⟩
      exact ⟨fun hg => ⟨h.size_eq, hle.2 hg⟩, hle.1⟩
  · exact ⟨fun _ => h.congr rfl rfl rfl, fun _ h' => absurd h' hinc⟩
  · exact ⟨fun _ => h.congr rfl rfl rfl, fun _ h' => absurd h' hinc⟩

theorem fitsInv_step {s s' : St} {a : Act} (h : FitsInv s) (hst : Step s a s') :
    (Grows s a → FitsInv s') ∧ (Fits s' → Grows s a) := by
  cases hst with
  | add e => exact ⟨fun _ => h.congr rfl rfl rfl, fun _ => trivial⟩
  | cmdGet => exact ⟨fun _ => h.congr rfl rfl (cbMaxDataLen_cmdGetPacket ..), fun _ => trivial⟩
  | cmdGetFails => exact ⟨fun _ => h.congr rfl rfl rfl, fun _ => trivial⟩
  | execute rc =>
    obtain ⟨hI, hF⟩ := fitsInv_execute h rc
    exact ⟨fun hg => (hI hg).congr rfl rfl rfl, fun hf => hF hf.1⟩
  | setResults => exact ⟨fun _ => h.congr rfl rfl rfl, fun _ => trivial⟩
  | leave => exact ⟨fun _ => h.congr rfl rfl rfl, fun _ => trivial⟩
  | final => exact ⟨fun _ => h.congr rfl rfl rfl, fun _ => trivial⟩

/-- **The buffer is large enough along a run exactly if no growth of it fails.** -/
theorem always_fits_iff {as : List Act} {s : St} (h : machine.exec machine.init as = some s) :
    machine.Always Fits machine.init as ↔ machine.Along Grows machine.init as :=
  Machine.always_iff_along (fun _ => FitsInv.fits)
    (fun _ _ _ hI hg hst => (fitsInv_step hI (step_cases hst)).1 hg)
    (fun _ _ _ hI hst => (fitsInv_step hI (step_cases hst)).2) ⟨rfl, le_rfl⟩ h

/-- A command with a block of 10000 bytes, for which its client waits. -/
def longCommand : CommandListEntry := ⟨⟨0, 0, 10008, 0, 64, 10000⟩, [], 0⟩

/-- There is no memory for a longer buffer, and the driver offers the command again. -/
def failedGrowth : List Act := [.add longCommand, .cmdGet true, .execute 8, .setResults true]

/-- The next `CMDGET` copies 10000 bytes into a buffer of 8192. -/
theorem not_fits_failedGrowth :
    ∃ s, machine.exec machine.init failedGrowth = some s ∧ s.size < s.param.cbMaxDataLen.toNat ∧
      ∃ pe ∈ s.copying, s.size < pe.parmPacket.cbCmdDataLen.toNat :=
  ⟨_, rfl, by decide, _, List.mem_singleton_self _, by decide⟩

/-- `always_fits_iff` where the growth succeeds. -/
theorem always_fits_growth :
    machine.Always Fits machine.init [.add longCommand, .cmdGet true, .execute 0, .setResults true]
      ↔ machine.Along Grows machine.init
        [.add longCommand, .cmdGet true, .execute 0, .setResults true] :=
  always_fits_iff rfl

/-! ### One result for each command -/

/-- No `CMDGET` fails while the daemon's packet still has a block, and no `SHUTDOWN` with a block
ends the loop. -/
def Fresh (s : St) : Act → Prop
  | .cmdGet false => s.param.waited = false
  | .leave => s.param.waited = false
  | _ => True

/-- The command that the daemon has got and whose result it has still to send. -/
def St.unsent (s : St) : List ℕ :=
  match s.pc with
  | .head | .finished => []
  | _ => if s.param.waited then [s.ticket] else []

/-- The numbers of the commands in the daemon's hands, of those that are sent and of those that
are waiting. -/
def St.tickets (s : St) : List ℕ := s.unsent ++ (s.sent.map (·.2) ++ s.waiting.map (·.ticket))

/-- The invariant: every command is in one of these places, and only once. -/
def SentInv (s : St) : Prop := Issued s.tickets s.queued

/-- Sending moves the command in the daemon's hands to those that are sent. -/
theorem sent_send {s : St} (hpc : s.pc = .executed ∨ s.pc = .ended) :
    (s.send.sent.map (·.2) ++ s.waiting.map (·.ticket)).Perm s.tickets := by
  cases hw : s.param.waited with
  | false => rcases hpc with hpc | hpc <;> simp [St.tickets, St.unsent, St.send, hpc, hw]
  | true =>
    have hu : s.unsent = [s.ticket] := by rcases hpc with hpc | hpc <;> simp [St.unsent, hpc, hw]
    simp [St.tickets, St.send, hw, hu]

theorem SentInv.congr {s s' : St} (h : SentInv s) (hu : s'.unsent = s.unsent)
    (hs : s'.sent = s.sent) (hw : s'.waiting = s.waiting) (hq : s'.queued = s.queued) :
    SentInv s' := by
  rw [SentInv, St.tickets, hu, hs, hw, hq]
  exact h

theorem waited_cmdGetPacket (pa : CmdParmPacket) (pe : CommandListEntry) :
    (cmdGetPacket pa pe).waited =
      (!decide (pa.cbMaxDataLen < pe.parmPacket.cbCmdDataLen) && pe.parmPacket.waited) := by
  unfold cmdGetPacket
  split_ifs with hlt <;> simp [CmdParmPacket.waited, hlt, CommandListEntry.fetchedBy]

theorem unsent_of_pc {s : St} (h : s.pc ≠ .head) (h' : s.pc ≠ .finished) :
    s.unsent = if s.param.waited then [s.ticket] else [] := by
  cases hpc : s.pc <;> simp_all [St.unsent]

theorem unsent_of_not_waited {s : St} (h : s.param.waited = false) : s.unsent = [] := by
  cases hpc : s.pc <;> simp [St.unsent, hpc, h]

theorem pc_cmdGet (s : St) (pe : CommandListEntry) (rest : List CommandListEntry) :
    (s.cmdGet pe rest).pc ≠ .head ∧ (s.cmdGet pe rest).pc ≠ .finished := by
  simp only [St.cmdGet]
  split_ifs <;> simp

/-- `CMDGET` takes a command off the list, or puts it back. -/
theorem sentInv_cmdGet {s : St} {pe : CommandListEntry} {rest : List CommandListEntry}
    (h : SentInv s) (hpc : s.pc = .head) (hw : s.waiting = pe :: rest) :
    SentInv (s.cmdGet pe rest) := by
  have hu : s.unsent = [] := by simp [St.unsent, hpc]
  have hu' := unsent_of_pc (pc_cmdGet s pe rest).1 (pc_cmdGet s pe rest).2
  have hwaited : (s.cmdGet pe rest).param.waited = _ :=
    waited_cmdGetPacket { s.param with rc := 0, cmd := 0 } pe
  by_cases hlt : s.param.cbMaxDataLen < pe.parmPacket.cbCmdDataLen
  · -- the daemon gets `INC_DATAPACKETLEN`, which has no block
    refine h.congr ?_ rfl ?_ rfl
    · rw [hu', hwaited, hu]
      simp [hlt]
    · simp only [St.cmdGet, hlt, ↓reduceIte, hw]
  · have hperm : (pe.ticket :: (s.sent.map (·.2) ++ rest.map (·.ticket))).Perm s.tickets := by
      rw [St.tickets, hu, hw]
      exact List.perm_middle.symm
    have hsub : (s.cmdGet pe rest).tickets.Sublist
        (pe.ticket :: (s.sent.map (·.2) ++ rest.map (·.ticket))) := by
      rw [St.tickets, hu', hwaited]
      cases pe.parmPacket.waited <;> simp [St.cmdGet, hlt]
    exact h.subperm (hsub.subperm.trans hperm.subperm)

/-- Queuing adds a new number. -/
theorem sentInv_add {s : St} (h : SentInv s) (e : CommandListEntry) :
    SentInv { s with
      waiting := s.waiting ++ [e.queuedAs (cmdhandleAt (s.queued + 1)) s.queued]
      queued := s.queued + 1 } := by
  refine Issued.cons h ?_
  rw [St.tickets, List.map_append, ← List.append_assoc, ← List.append_assoc]
  refine (List.perm_append_singleton ..).trans (.of_eq ?_)
  rw [St.tickets, List.append_assoc]
  rfl

theorem executeNewCommand_frame (s : St) (rc : ULONG) :
    (s.executeNewCommand rc).param.waited = s.param.waited ∧
      (s.executeNewCommand rc).ticket = s.ticket ∧ (s.executeNewCommand rc).sent = s.sent ∧
      (s.executeNewCommand rc).waiting = s.waiting ∧
      (s.executeNewCommand rc).queued = s.queued := by
  unfold St.executeNewCommand St.increaseDataPacketLength
  split_ifs <;> exact ⟨rfl, rfl, rfl, rfl, rfl⟩

theorem sentInv_step {s s' : St} {a : Act} (h : SentInv s) (hg : Fresh s a) (hst : Step s a s') :
    SentInv s' := by
  cases hst with
  | add e => exact sentInv_add h e
  | cmdGet hpc hw => exact sentInv_cmdGet h hpc hw
  | cmdGetFails hpc =>
    -- the old packet stays in `param`, so it must not have a block
    refine h.congr ?_ rfl rfl rfl
    rw [unsent_of_not_waited (show s.param.waited = false from hg)]
    exact unsent_of_not_waited hg
  | execute rc hpc =>
    obtain ⟨hw, ht, hs, hwait, hq⟩ := executeNewCommand_frame s rc
    refine h.congr ?_ hs hwait hq
    rw [unsent_of_pc (by simp) (by simp), unsent_of_pc (by simp [hpc]) (by simp [hpc])]
    simp only [hw, ht]
  | setResults ok hpc => exact h.subperm (sent_send (.inl hpc)).subperm
  | leave hpc =>
    -- a second `CMDSETRESULTS` of the same packet follows
    refine h.congr ?_ rfl rfl rfl
    rw [unsent_of_not_waited (show s.param.waited = false from hg)]
    exact unsent_of_not_waited hg
  | final ok hpc => exact h.subperm (sent_send (.inr hpc)).subperm

/-- **Every result is sent once** in a run of such steps. -/
theorem sent_nodup {as : List Act} {s : St} (h : machine.Run Fresh machine.init as s) :
    s.sent.Nodup := by
  have hI : SentInv s := h.invariant (fun _ _ _ hI hg hst => sentInv_step hI hg (step_cases hst))
    .nil
  exact (List.Nodup.of_append_left (List.Nodup.of_append_right hI.nodup)).of_map

/-- At the head of the loop the packet in `param` has been sent. -/
def HeadSent (s : St) : Prop :=
  s.pc = .head → s.param.waited = true → (s.param.hcmd, s.ticket) ∈ s.sent

theorem headSent_step {s s' : St} {a : Act} (h : HeadSent s) (hst : Step s a s') : HeadSent s' := by
  cases hst with
  | add e => exact h
  | cmdGet hpc hw => exact fun hpc' => absurd hpc' (pc_cmdGet ..).1
  | cmdGetFails => exact nofun
  | execute => exact nofun
  | setResults =>
    intro _ hw
    have hw' : s.param.waited = true := hw
    simp [St.send, hw']
  | leave => exact nofun
  | final => exact nofun

theorem headSent_of_exec {as : List Act} {s : St} (h : machine.exec machine.init as = some s) :
    HeadSent s :=
  (Machine.run_anyStep_iff.2 h).invariant (fun _ _ _ hI _ hst => headSent_step hI (step_cases hst))
    nofun

theorem not_nodup_append_of_mem {α : Type*} {l : List α} {x : α} (h : x ∈ l) : ¬ (l ++ [x]).Nodup :=
  fun hn => (List.nodup_append.1 hn).2.2 x h x (List.mem_singleton_self x) rfl

/-- Otherwise the daemon's own next steps send a result again. -/
theorem sent_twice_of_not_fresh {as : List Act} {s s' : St} {a : Act}
    (h : machine.exec machine.init as = some s) (hst : machine.step s a = some s')
    (hg : ¬ Fresh s a) : ∃ bs s'', machine.exec s' bs = some s'' ∧ ¬ s''.sent.Nodup := by
  have hhead := headSent_of_exec h
  cases step_cases hst with
  | cmdGetFails hpc =>
    have hw : s.param.waited = true := by simpa [Fresh] using hg
    have hb : s.param.cmdBlockID ≠ 0#32 := by simpa [CmdParmPacket.waited] using hw
    refine ⟨[.execute 0, .setResults true], _, rfl, ?_⟩
    simpa [St.send, CmdParmPacket.waited, hb, St.executeNewCommand, cmdIncDatapacketlen, lxCmds]
      using not_nodup_append_of_mem (hhead hpc hw)
  | leave hpc =>
    have hw : s.param.waited = true := by simpa [Fresh] using hg
    refine ⟨[.final true], _, rfl, ?_⟩
    simpa [St.send, hw] using not_nodup_append_of_mem (hhead hpc hw)
  | add | cmdGet | execute | setResults | final => exact absurd trivial hg

/-- The daemon sends the result of a command, and the next `CMDGET` fails. -/
def failedGet : List Act :=
  [.add ⟨⟨0, 0, 10008, 0, 64, 1⟩, [], 0⟩, .cmdGet true, .execute 0, .setResults true,
    .cmdGet false, .execute 0, .setResults true]

/-- The result is sent a second time. -/
theorem not_sent_nodup_failedGet :
    ∃ s, machine.exec machine.init failedGet = some s ∧ s.sent = [(1, 0), (1, 0)] ∧
      ¬ s.sent.Nodup :=
  ⟨_, rfl, by decide, by decide⟩

/-- A test for `Fresh`. -/
def fresh (s : St) : Act → Bool
  | .cmdGet false => !s.param.waited
  | .leave => !s.param.waited
  | _ => true

theorem Fresh.of_fresh (s : St) (a : Act) (h : fresh s a = true) : Fresh s a := by
  cases a with
  | cmdGet ok =>
    cases ok with
    | false => simpa [Fresh, fresh] using h
    | true => trivial
  | leave => simpa [Fresh, fresh] using h
  | _ => trivial

/-- `sent_nodup` for a daemon whose first `CMDGET` fails and that then executes a command. -/
theorem sent_nodup_firstGetFails :
    ∃ s, machine.exec machine.init (.cmdGet false :: .execute 0 :: .setResults true ::
        failedGet.take 4) = some s ∧ s.sent.Nodup := by
  obtain ⟨s, hs⟩ := Option.isSome_iff_exists.1
    (rfl : (machine.exec machine.init (.cmdGet false :: .execute 0 :: .setResults true ::
      failedGet.take 4)).isSome = true)
  exact ⟨s, hs, sent_nodup (Machine.run_of_check Fresh.of_fresh hs rfl)⟩

end CommandLoop

end LxApi32
