import LxApi32.Daemon.Handles

/-!
# The wrappers of the driver's file operations

A wrapper like `LX_DOSOPEN` puts its arguments into a data block, calls `LX_dmn_add_command` with
a packet on its stack, and takes the result of the operation from the packet.  But
`LX_dmn_add_command` leaves the packet alone when it queues nothing, and the wrappers do not look
at what it returns, so the result is then what the stack held.

* `Sys.callEnds` : how a call of `LX_dmn_add_command` ends, in any run of the daemon protocol.
* `Sys.noFalseSuccess_iff` : exactly when a wrapper reports success only for a command that the
  daemon has executed.
* `Wrapper.sound_always_iff_eq` : `LX_DOSENUMATTRIBUTE` is the only one that always does so, for it
  presets the result with an error.
-/

namespace LxApi32

/-- When a wrapper copies the results to its output parameters. -/
inductive Outputs
  /-- It has none. -/
  | none
  /-- If the return code in the packet is `0`. -/
  | onSuccess
  /-- In any case. -/
  | always
  deriving DecidableEq, Repr

/-- What a wrapper returns. -/
inductive Reports
  /-- The return code in the packet, `p.rc`. -/
  | packetRc (outputs : Outputs)
  /-- What `LX_dmn_add_command` returns; there are no outputs. -/
  | addResult
  /-- `0`; there are no outputs. -/
  | zero
  deriving DecidableEq, Repr

/-- A wrapper: the command, and what it does around `LX_dmn_add_command`. -/
structure Wrapper where
  /-- The command. -/
  ulCmd : ULONG
  /-- Wait for the result? -/
  waitflag : ULONG
  /-- What it assigns to `p.rc` before the call, if anything. -/
  preset : Option ULONG
  /-- It allocates its data block, and returns `-ENOMEM` if it cannot. -/
  kmallocs : Bool
  /-- What it returns. -/
  reports : Reports
  deriving DecidableEq, Repr

/-- A wrapper with a packet on its stack and a data block there or from the caller. -/
def onStack (ulCmd : ULONG) (outputs : Outputs) : Wrapper :=
  ⟨ulCmd, 1, none, false, .packetRc outputs⟩

/-- A wrapper that allocates its data block. -/
def withKmalloc (ulCmd : ULONG) (outputs : Outputs) : Wrapper :=
  ⟨ulCmd, 1, none, true, .packetRc outputs⟩

/-- `LX_DOSDELETE` -/
def lxDosdelete : Wrapper := onStack 60 .none

/-- `LX_DOSMOVE` -/
def lxDosmove : Wrapper := onStack 67 .none

/-- `LX_DOSDELETEDIR` -/
def lxDosdeletedir : Wrapper := onStack 80 .none

/-- `LX_DOSSETFILEINFO` -/
def lxDossetfileinfo : Wrapper := onStack 83 .none

/-- `LX_DOSSETPATHINFO` -/
def lxDossetpathinfo : Wrapper := onStack 104 .none

/-- `LX_DOSCOPY` -/
def lxDoscopy : Wrapper := onStack 201 .none

/-- `LX_DOSQUERYPATHINFO` -/
def lxDosquerypathinfo : Wrapper := onStack 223 .onSuccess

/-- `LX_DOSSCANENV` -/
def lxDosscanenv : Wrapper := onStack 227 .onSuccess

/-- `LX_DOSCREATEDIR` -/
def lxDoscreatedir : Wrapper := onStack 270 .none

/-- `LX_DOSSETFILESIZE` -/
def lxDossetfilesize : Wrapper := onStack 272 .none

/-- `LX_DOSOPEN` -/
def lxDosopen : Wrapper := onStack 273 .onSuccess

/-- `LX_DOSQUERYCURRENTDISK` -/
def lxDosquerycurrentdisk : Wrapper := onStack 275 .onSuccess

/-- `LX_DOSQUERYFILEINFO` -/
def lxDosqueryfileinfo : Wrapper := onStack 279 .onSuccess

/-- `LX_GETFILEINFO`, whose block is the caller's structure. -/
def lxGetfileinfo : Wrapper := onStack 10011 .none

/-- `LX_LXAFS_RENAME` -/
def lxLxafsRename : Wrapper := onStack 10012 .none

/-- `LX_DOSEXECPGM` -/
def lxDosexecpgm : Wrapper := withKmalloc 144 .always

/-- `LX_DOSFINDFIRST` -/
def lxDosfindfirst : Wrapper := withKmalloc 264 .onSuccess

/-- `LX_DOSFINDNEXT` -/
def lxDosfindnext : Wrapper := withKmalloc 265 .onSuccess

/-- `LX_DOSREAD` -/
def lxDosread : Wrapper := withKmalloc 281 .onSuccess

/-- `LX_DOSWRITE` -/
def lxDoswrite : Wrapper := withKmalloc 282 .onSuccess

/-- `LX_DOSQUERYSYSINFO` -/
def lxDosquerysysinfo : Wrapper := withKmalloc 10006 .always

/-- `LX_EAREADSTRING` -/
def lxEareadstring : Wrapper := withKmalloc 10009 .onSuccess

/-- `LX_DOSENUMATTRIBUTE`, which presets an error. -/
def lxDosenumattribute : Wrapper := { withKmalloc 204 .onSuccess with preset := some negENOMEM }

/-- `LX_DOSCLOSE`, which presets `0`. -/
def lxDosclose : Wrapper := { onStack 257 .none with preset := some 0 }

/-- `LX_DOSFINDCLOSE`, which presets `0`. -/
def lxDosfindclose : Wrapper := { onStack 263 .none with preset := some 0 }

/-- `LX_DOSSETFILEPTR`; without `pibActual` it does not look at the result. -/
def lxDossetfileptr (pibActual : Bool) : Wrapper :=
  if pibActual then onStack 256 .onSuccess else { onStack 256 .none with reports := .zero }

/-- `LX_EAWRITESTRING` -/
def lxEawritestring : Wrapper := { withKmalloc 10010 .none with reports := .zero }

/-- `LX_DMN_LOG`, which waits if `delayed_log` is `0`. -/
def lxDmnLog (delayedLog : ULONG) : Wrapper :=
  { onStack 10005 .none with waitflag := if delayedLog = 0 then 1 else 0, reports := .zero }

/-- `LX_DMN_SETLOGNAME` -/
def lxDmnSetlogname : Wrapper := { onStack 10004 .none with reports := .addResult }

/-- `LX_DOSBEEP` -/
def lxDosbeep (waitflag : ULONG) : Wrapper :=
  { onStack 286 .none with waitflag := waitflag, reports := .addResult }

/-- The wrappers that wait, `LX_DOSBEEP` and `LX_DMN_LOG` with arguments for which they do. -/
def waitingWrappers : List Wrapper :=
  [lxDosdelete, lxDosmove, lxDosdeletedir, lxDossetfileinfo, lxDossetpathinfo, lxDoscopy,
    lxDosquerypathinfo, lxDosscanenv, lxDoscreatedir, lxDossetfilesize, lxDosopen,
    lxDosquerycurrentdisk, lxDosqueryfileinfo, lxGetfileinfo, lxLxafsRename, lxDosexecpgm,
    lxDosfindfirst, lxDosfindnext, lxDosread, lxDoswrite, lxDosquerysysinfo, lxEareadstring,
    lxDosenumattribute, lxDosclose, lxDosfindclose, lxDossetfileptr true, lxDossetfileptr false,
    lxEawritestring, lxDmnLog 0, lxDmnSetlogname, lxDosbeep 1]

namespace Wrapper

/-- The return code in the packet before the call; `rc` is what the stack holds. -/
def rcBefore (w : Wrapper) (rc : ULONG) : ULONG := w.preset.getD rc

/-- The arguments of `LX_dmn_add_command`: `p` is what the stack holds, `data` the block. -/
def addArgs (w : Wrapper) (p : CmdParmPacket) (pData cbDataLen : ULONG) (data : List UInt8) :
    AddArgs :=
  ⟨w.ulCmd, w.waitflag, { p with rc := w.rcBefore p.rc }, pData, cbDataLen, data⟩

/-- What the wrapper returns and whether it writes its output parameters, when
`LX_dmn_add_command` has returned `ret` and left the packet `p`. -/
def afterCall (w : Wrapper) (ret : ULONG) (p : CmdParmPacket) : ULONG × Bool :=
  match w.reports with
  | .packetRc .none => (p.rc, false)
  | .packetRc .onSuccess => (p.rc, p.rc == 0)
  | .packetRc .always => (p.rc, true)
  | .addResult => (ret, false)
  | .zero => (0, false)

/-- The whole wrapper, for the outcome `block` of its own `kmalloc` and the outcome of
`LX_dmn_add_command`. -/
def run (w : Wrapper) (block : Bool) (add : ULONG × CmdParmPacket) : ULONG × Bool :=
  if w.kmallocs && !block then (negENOMEM, false) else w.afterCall add.1 add.2

end Wrapper

/-! ### What happens to the command of a call -/

/-- What an observer of one client's call sees. -/
inductive Event
  /-- The client queues a command. -/
  | queued (e : CommandListEntry)
  /-- The daemon posts a result. -/
  | posted (pe : CommandListEntry)

/-- The client has queued a command, and the daemon has posted the return code `rc` for it. -/
def Executed (l : List Event) (rc : ULONG) : Prop :=
  ∃ e pe, .queued e ∈ l ∧ .posted pe ∈ l ∧ pe.key = e.key ∧ pe.parmPacket.rc = rc

theorem Executed.mono {l l' : List Event} {rc : ULONG} (h : Executed l rc) (hl : l ⊆ l') :
    Executed l' rc := by
  obtain ⟨e, pe, he, hpe, hk⟩ := h
  exact ⟨e, pe, hl he, hl hpe, hk⟩

namespace Sys

/-- What one step shows of the call of client `i`. -/
def callEvents (i : ℕ) (s : Sys) (a : Act) : List Event :=
  (match a, s.clients i with
    | .append j, .filled args =>
      if j = i then [.queued (args.entry.queuedAs (nextCmdhandle s.cmdhandle) s.queued)] else []
    | _, _ => []) ++ (s.postedBy a).map .posted

/-- The steps in the course of a call of client `i`. -/
def DuringCall (i : ℕ) (s : Sys) (a : Act) : Prop :=
  s.Windowed a ∧ ∀ args alloc, a ≠ .call i args alloc

/-- A client in the course of a call with the arguments `a`, or at its end, when `n` commands had
been queued before and `l` has happened since. -/
def ClientAt (a : AddArgs) (n : ℕ) (l : List Event) : Client → Prop
  | .filled args => args = a
  | .appended e | .getResult e => .queued e ∈ l ∧ e.key.waited ∧ n ≤ e.ticket
  | .out r => ∃ pe : CommandListEntry, r = some (pe.parmPacket.rc, pe.parmPacket) ∧
      (pe.parmPacket.rc = errorNoChildren ∨ Executed l pe.parmPacket.rc)

/-- The invariant of a call of client `i` that finds a daemon and memory. -/
structure CallInv (i : ℕ) (a : AddArgs) (n : ℕ) (l : List Event) (s : Sys) : Prop
    extends HandleInv s where
  /-- Commands are only added. -/
  le_queued : n ≤ s.queued
  /-- What is done of the newer commands was posted by the daemon or answered by the close. -/
  done : ∀ pe ∈ s.done, n ≤ pe.ticket → pe.parmPacket.rc = errorNoChildren ∨ .posted pe ∈ l
  /-- Where the client is. -/
  client : ClientAt a n l (s.clients i)

theorem ClientAt.mono {a : AddArgs} {n : ℕ} {l l' : List Event} {c : Client}
    (h : ClientAt a n l c) (hl : l ⊆ l') : ClientAt a n l' c := by
  cases c with
  | out => exact h.imp fun pe ⟨hr, hpe⟩ => ⟨hr, hpe.imp_right fun hs => hs.mono hl⟩
  | filled => exact h
  | appended => exact ⟨hl h.1, h.2⟩
  | getResult => exact ⟨hl h.1, h.2⟩

/-- What is on the done list was there before, was posted now, or is answered by the close. -/
theorem done_of_step {s s' : Sys} {a : Act} (hst : Step s a s') {pe : CommandListEntry}
    (hpe : pe ∈ s'.done) :
    pe ∈ s.done ∨ pe ∈ s.postedBy a ∨ pe.parmPacket.rc = errorNoChildren := by
  cases hst with
  | pollTake => exact .inl (List.mem_of_mem_eraseP hpe)
  | post hd hk hw =>
    simp only [postedBy, hk, hw, Bool.and_self, ↓reduceIte]
    exact (List.mem_append.1 hpe).imp_right .inl
  | closeSweep =>
    obtain ⟨e, -, rfl⟩ := List.mem_map.1 hpe
    exact .inr (.inr rfl)
  | _ => exact .inl hpe

theorem queued_le_of_step {s s' : Sys} {a : Act} (hst : Step s a s') : s.queued ≤ s'.queued := by
  cases hst with
  | append => exact Nat.le_succ _
  | _ => exact le_rfl

/-- The client's own steps. -/
theorem clientAt_step {i n : ℕ} {a : AddArgs} {l : List Event} {s s' : Sys} {act : Act}
    (h : CallInv i a n l s) (hw : a.entry.key.waited) (hg : DuringCall i s act)
    (hst : Step s act s') : ClientAt a n (l ++ s.callEvents i act) (s'.clients i) := by
  have hmono := h.client.mono (List.subset_append_left l (s.callEvents i act))
  by_cases hact : Act.client act = some i
  · cases hst with
    | callNoDaemon => obtain rfl := Option.some.inj hact; exact absurd rfl (hg.2 _ _)
    | callNoMemory => obtain rfl := Option.some.inj hact; exact absurd rfl (hg.2 _ _)
    | callFilled => obtain rfl := Option.some.inj hact; exact absurd rfl (hg.2 _ _)
    | @append j args hc =>
      obtain rfl := Option.some.inj hact
      rw [hc] at hmono
      obtain rfl : args = a := hmono
      have hself : (s.append j args.entry).clients j = _ := clients_setClient_self s j _
      rw [hself]
      refine ⟨List.mem_append_right _ ?_, hw, h.le_queued⟩
      simp [callEvents, hc]
    | @runOn j e hc =>
      obtain rfl := Option.some.inj hact
      rw [hc] at hmono
      have hself : (s.runOn j e).clients j = _ := clients_setClient_self s j _
      rw [hself, if_pos (waited_iff.2 hmono.2.1)]
      exact hmono
    | pollNone => exact hmono
    | @pollTake j e pe hc hf =>
      -- the packet with the client's handle is the one of its own command
      obtain rfl := Option.some.inj hact
      have hclient := h.client
      rw [hc] at hclient
      obtain ⟨hqueued, -, hn⟩ := hclient
      have hpe : pe ∈ s.done := List.mem_of_find?_eq_some hf
      have hhcmd : pe.parmPacket.hcmd = e.parmPacket.hcmd := by simpa using List.find?_some hf
      have hkey : pe.key = e.key := h.key_eq hc (mem_keys_of_done hpe) hhcmd
      have hticket : pe.ticket = e.ticket := congrArg CommandKey.ticket hkey
      have hself : (s.setClient j (.out (some (pe.parmPacket.rc, pe.parmPacket)))).clients j = _ :=
        clients_setClient_self s j _
      change ClientAt a n _ ((s.setClient j _).clients j)
      rw [hself]
      refine ⟨pe, rfl, (h.done pe hpe (hticket ▸ hn)).imp_right ?_⟩
      intro hposted
      exact ⟨e, pe, List.mem_append_left _ hqueued, List.mem_append_left _ hposted, hkey, rfl⟩
    | _ => cases hact
  · rwa [clients_of_step hst hact]

theorem callInv_step {i n : ℕ} {a : AddArgs} {l : List Event} {s s' : Sys} {act : Act}
    (h : CallInv i a n l s) (hw : a.entry.key.waited) (hg : DuringCall i s act)
    (hst : Step s act s') : CallInv i a n (l ++ s.callEvents i act) s' where
  toHandleInv := handleInv_step h.toHandleInv hg.1 hst
  le_queued := h.le_queued.trans (queued_le_of_step hst)
  done pe hpe hn := by
    rcases done_of_step hst hpe with hpe | hpe | hrc
    · exact (h.done pe hpe hn).imp_right (List.mem_append_left _)
    · refine .inr (List.mem_append_right _ (List.mem_append_right _ ?_))
      exact List.mem_map_of_mem hpe
    · exact .inl hrc
  client := clientAt_step h hw hg hst

/-- The start of a call that finds a daemon and memory. -/
theorem callInv_call {i : ℕ} {a : AddArgs} {s s' : Sys} (h : HandleInv s)
    (hst : Step s (.call i a true) s') (hq : s.vars.pid ≠ 0) : CallInv i a s.queued [] s' where
  toHandleInv := handleInv_step h (show Windowed s (.call i a true) from trivial) hst
  le_queued := queued_le_of_step hst
  done pe hpe hn := by
    have hdone : s'.done = s.done := done_of_keepsKeys hst trivial
    exact absurd hn (Nat.not_le_of_lt (h.ticket_lt (mem_keys_of_done (hdone ▸ hpe))))
  client := by
    cases hst with
    | callNoDaemon hc hpid => exact absurd hpid hq
    | callFilled hc =>
      rw [clients_setClient_self]
      rfl

/-- Client `i` is out of its call with the result `r`, and has queued nothing. -/
def OutInv (i : ℕ) (r : Option (ULONG × CmdParmPacket)) (l : List Event) (s : Sys) : Prop :=
  s.clients i = .out r ∧ ∀ e, .queued e ∉ l

theorem outInv_step {i : ℕ} {r : Option (ULONG × CmdParmPacket)} {l : List Event} {s s' : Sys}
    {act : Act} (h : OutInv i r l s) (hg : DuringCall i s act) (hst : Step s act s') :
    OutInv i r (l ++ s.callEvents i act) s' := by
  obtain ⟨hout, hl⟩ := h
  have hact : Act.client act ≠ some i := by
    intro hact
    cases hst with
    | callNoDaemon => obtain rfl := Option.some.inj hact; exact hg.2 _ _ rfl
    | callNoMemory => obtain rfl := Option.some.inj hact; exact hg.2 _ _ rfl
    | callFilled => obtain rfl := Option.some.inj hact; exact hg.2 _ _ rfl
    | append hc => obtain rfl := Option.some.inj hact; rw [hout] at hc; cases hc
    | runOn hc => obtain rfl := Option.some.inj hact; rw [hout] at hc; cases hc
    | pollNone hc => obtain rfl := Option.some.inj hact; rw [hout] at hc; cases hc
    | pollTake hc => obtain rfl := Option.some.inj hact; rw [hout] at hc; cases hc
    | _ => cases hact
  refine ⟨(clients_of_step hst hact).trans hout, ?_⟩
  intro e he
  rcases List.mem_append.1 he with he | he
  · exact hl e he
  · have hj : ∀ j, act = .append j → j ≠ i := by
      rintro j rfl rfl
      exact hact rfl
    simp only [callEvents, List.mem_append, List.mem_map, reduceCtorEq, and_false, exists_false,
      or_false] at he
    split at he
    · rw [if_neg (hj _ rfl)] at he
      cases he
    · cases he

/-- How `LX_dmn_add_command` ends for a client that waits, with what it returns and leaves in the
packet `parm`.  The first two arguments say whether it found a daemon and memory. -/
inductive CallEnds (l : List Event) (parm : CmdParmPacket) :
    Bool → Bool → ULONG × CmdParmPacket → Prop
  | noDaemon {memory} (h : ∀ rc, ¬ Executed l rc) : CallEnds l parm false memory (0, parm)
  | noMemory (h : ∀ rc, ¬ Executed l rc) : CallEnds l parm true false (negENOMEM, parm)
  | answered {p} (h : p.rc = errorNoChildren ∨ Executed l p.rc) :
      CallEnds l parm true true (p.rc, p)

theorem not_executed_of_not_queued {l : List Event} (h : ∀ e, .queued e ∉ l) (rc : ULONG) :
    ¬ Executed l rc :=
  fun ⟨e, _, he, _⟩ => h e he

/-- **Every call of a waiting client ends in one of the three ways.** -/
theorem callEnds {i : ℕ} {args : AddArgs} {alloc : Bool} {s s₁ s' : Sys} {as : List Act}
    {add : ULONG × CmdParmPacket} (hs : HandleInv s) (hw : args.entry.key.waited)
    (hcall : machine.step s (.call i args alloc) = some s₁)
    (hrun : machine.Run (DuringCall i) s₁ as s') (hend : s'.clients i = .out (some add)) :
    CallEnds (machine.collect (callEvents i) s₁ as) args.parm s.vars.queues alloc add := by
  have hst := step_cases hcall
  -- a client that is out at once is out at the end
  have hout : ∀ r, s₁.clients i = .out (some r) →
      add = r ∧ ∀ rc, ¬ Executed (machine.collect (callEvents i) s₁ as) rc := fun r hr => by
    have h₀ : OutInv i (some r) [] s₁ := ⟨hr, fun e => List.not_mem_nil⟩
    have h := hrun.history (fun _ _ _ _ h hg hst => outInv_step h hg (step_cases hst)) h₀
    rw [List.nil_append] at h
    have hadd := hend.symm.trans h.1
    exact ⟨by simpa using hadd, not_executed_of_not_queued h.2⟩
  have hst' := hst
  cases hst with
  | callNoDaemon hc hq =>
    have hq' : s.vars.queues = false := by simpa [DaemonVars.queues] using hq
    obtain ⟨rfl, hno⟩ := hout _ (clients_setClient_self ..)
    rw [hq']
    exact .noDaemon hno
  | callNoMemory hc hq =>
    obtain ⟨rfl, hno⟩ := hout _ (clients_setClient_self ..)
    rw [DaemonVars.queues_iff.2 hq]
    exact .noMemory hno
  | callFilled hc hq =>
    have h := hrun.history (fun _ _ _ _ h hg hst => callInv_step h hw hg (step_cases hst))
      (callInv_call hs hst' hq)
    rw [List.nil_append] at h
    have hclient := h.client
    rw [hend] at hclient
    obtain ⟨pe, hr, hpe⟩ := hclient
    obtain rfl := Option.some.inj hr
    rw [DaemonVars.queues_iff.2 hq]
    exact .answered hpe

end Sys

/-! ### False success -/

/-- What is expected of a wrapper that has returned `res.1`, and written its output parameters if
`res.2`.  Its command was `queued` or not, and `l` has happened during the call. -/
structure NoFalseSuccess (queued : Bool) (l : List Event) (res : ULONG × Bool) : Prop where
  /-- It returns `0` only if the daemon has executed the command and posted `0`. -/
  success : res.1 = 0 → Executed l 0
  /-- If nothing was queued it returns an error and writes nothing. -/
  not_queued : queued = false → res.1 ≠ 0 ∧ res.2 = false

theorem noFalseSuccess_false_iff {l : List Event} {res : ULONG × Bool} :
    NoFalseSuccess false l res ↔ res.1 ≠ 0 ∧ res.2 = false :=
  ⟨fun h => h.not_queued rfl, fun h => ⟨fun h0 => absurd h0 h.1, fun _ => h⟩⟩

theorem noFalseSuccess_true_iff {l : List Event} {res : ULONG × Bool} :
    NoFalseSuccess true l res ↔ (res.1 = 0 → Executed l 0) :=
  ⟨fun h => h.success, fun h => ⟨h, nofun⟩⟩

namespace Wrapper

/-- The wrapper meets this: `rc` is the return code in the packet before the call, `daemon` and
`memory` say what `LX_dmn_add_command` found, `served` that the daemon posts `0`. -/
def Sound (w : Wrapper) (rc : ULONG) (daemon memory : Bool) (served : Prop) : Prop :=
  match w.reports with
  | .packetRc outputs => (daemon && memory) = true ∨ rc ≠ 0 ∧ outputs ≠ .always
  | .addResult => daemon = true
  | .zero => served

/-- The wrapper, after a call that has ended in some way. -/
theorem noFalseSuccess_afterCall_iff {w : Wrapper} {l : List Event} {parm : CmdParmPacket}
    {daemon memory : Bool} {add : ULONG × CmdParmPacket}
    (h : Sys.CallEnds l parm daemon memory add) :
    NoFalseSuccess (daemon && memory) l (w.afterCall add.1 add.2) ↔
      w.Sound parm.rc daemon memory (Executed l 0) := by
  cases h with
  | noDaemon hno =>
    rw [Bool.false_and, noFalseSuccess_false_iff, afterCall, Sound]
    cases w.reports with
    | packetRc outputs => cases outputs <;> simp
    | addResult => exact iff_of_false (fun h => h.1 rfl) Bool.false_ne_true
    | zero => exact iff_of_false (fun h => h.1 rfl) (hno 0)
  | noMemory hno =>
    have hne : negENOMEM ≠ 0 := by decide
    rw [Bool.and_false, noFalseSuccess_false_iff, afterCall, Sound]
    cases w.reports with
    | packetRc outputs => cases outputs <;> simp
    | addResult => exact iff_of_true ⟨hne, rfl⟩ rfl
    | zero => exact iff_of_false (fun h => h.1 rfl) (hno 0)
  | @answered p hrc =>
    -- a return code `0` is not that of the close, so the daemon has posted it
    have hexec : p.rc = 0 → Executed l 0 := fun h0 => by
      rw [h0] at hrc
      exact hrc.resolve_left (by decide)
    rw [Bool.and_self, noFalseSuccess_true_iff, afterCall, Sound]
    cases w.reports with
    | packetRc outputs => cases outputs <;> exact iff_of_true hexec (.inl rfl)
    | addResult => exact iff_of_true hexec rfl
    | zero => exact ⟨fun h => h rfl, fun h _ => h⟩

/-- A wrapper is sound in every case exactly if it presets an error, returns the return code of
the packet and writes its outputs only if that is `0`. -/
theorem sound_always_iff {w : Wrapper} :
    (∀ rc daemon memory served, w.Sound (w.rcBefore rc) daemon memory served) ↔
      (w.reports = .packetRc .none ∨ w.reports = .packetRc .onSuccess) ∧
        w.preset.any (· != 0) = true := by
  constructor
  · intro h
    have h₀ := h 0 false false False
    unfold Sound at h₀
    cases hr : w.reports with
    | packetRc outputs =>
      rw [hr] at h₀
      obtain ⟨hrc, hout⟩ := h₀.resolve_left (by decide)
      refine ⟨by cases outputs <;> simp at hout ⊢, ?_⟩
      cases hp : w.preset with
      | none => exact absurd (by rw [rcBefore, hp]; rfl) hrc
      | some rc =>
        rw [rcBefore, hp] at hrc
        exact bne_iff_ne.2 hrc
    | addResult => rw [hr] at h₀; cases h₀
    | zero => rw [hr] at h₀; cases h₀
  · rintro ⟨hr, hp⟩ rc₀ daemon memory served
    obtain ⟨rc, hp, hrc⟩ := (Option.any_eq_true _ _).1 hp
    have hne : w.rcBefore rc₀ ≠ 0 := by
      rw [rcBefore, hp]
      exact bne_iff_ne.1 hrc
    rcases hr with hr | hr <;> rw [Sound, hr] <;> exact .inr ⟨hne, by decide⟩

/-- `LX_DOSENUMATTRIBUTE` is the only one. -/
theorem sound_always_iff_eq {w : Wrapper} (hw : w ∈ waitingWrappers) :
    (∀ rc daemon memory served, w.Sound (w.rcBefore rc) daemon memory served) ↔
      w = lxDosenumattribute := by
  rw [sound_always_iff]
  revert w
  decide

end Wrapper

namespace Sys

/-- **A wrapper reports no false success exactly if it is sound**: the daemon and memory are there,
or the packet has held an error before. -/
theorem noFalseSuccess_iff {w : Wrapper} {i : ℕ} {pre as : List Act} {s s₁ s' : Sys}
    {stack : CmdParmPacket} {pData cbDataLen : ULONG} {data : List UInt8} {block alloc : Bool}
    {add : ULONG × CmdParmPacket} (hwait : w.waitflag ≠ 0) (hblock : pData ≠ 0)
    (hpre : machine.Run Windowed machine.init pre s)
    (hcall : machine.step s (.call i (w.addArgs stack pData cbDataLen data) alloc) = some s₁)
    (hrun : machine.Run (DuringCall i) s₁ as s') (hend : s'.clients i = .out (some add)) :
    NoFalseSuccess (s.vars.queues && alloc) (machine.collect (callEvents i) s₁ as)
        (w.run block add) ↔
      (w.kmallocs && !block) = true ∨ w.Sound (w.rcBefore stack.rc) s.vars.queues alloc
        (Executed (machine.collect (callEvents i) s₁ as) 0) := by
  have hs : HandleInv s :=
    hpre.invariant (fun _ _ _ h hg hst => handleInv_step h hg (step_cases hst)) handleInv_init
  have hw : (w.addArgs stack pData cbDataLen data).entry.key.waited := by
    change (if w.waitflag ≠ 0 then pData else 0) ≠ 0
    rwa [if_pos hwait]
  have hends := callEnds hs hw hcall hrun hend
  by_cases hb : (w.kmallocs && !block) = true
  · rw [Wrapper.run, if_pos hb]
    exact iff_of_true ⟨fun h => absurd h (by decide), fun _ => ⟨by decide, rfl⟩⟩ (.inl hb)
  · rw [Wrapper.run, if_neg hb, Wrapper.noFalseSuccess_afterCall_iff hends]
    exact (or_iff_right hb).symm

/-- Without a daemon `LX_DOSCLOSE` returns `0`. -/
theorem not_noFalseSuccess_noDaemon :
    ∃ s₁ add,
      machine.step machine.init (.call 0 (lxDosclose.addArgs .zero 64 4 [1]) true) = some s₁ ∧
      s₁.clients 0 = .out (some add) ∧ (lxDosclose.run true add).1 = 0 ∧
      ¬ NoFalseSuccess (machine.init.vars.queues && true) (machine.collect (callEvents 0) s₁ [])
        (lxDosclose.run true add) :=
  ⟨_, _, rfl, rfl, rfl, fun h => (h.not_queued rfl).1 rfl⟩

/-- A test for `DuringCall`. -/
def duringCall (i : ℕ) (s : Sys) : Act → Bool
  | .call j _ _ => j != i
  | a => s.fewQueued a

theorem DuringCall.of_duringCall (i : ℕ) (s : Sys) (a : Act) (h : duringCall i s a = true) :
    DuringCall i s a := by
  cases a with
  | call j args alloc =>
    refine ⟨trivial, ?_⟩
    rintro _ _ heq
    cases heq
    exact bne_iff_ne.1 h rfl
  | _ => exact ⟨.of_fewQueued s _ h, nofun⟩

/-- What happens during a call of client `0` that the daemon answers. -/
def answeredCall : List Act :=
  [.append 0, .runOn 0, .getNext, .getNext, .getNext, .setResults 0 0 [2] true, .poll 0]

/-- `noFalseSuccess_iff` for a call of `LX_DOSCLOSE` that the daemon answers. -/
theorem noFalseSuccess_answered :
    ∃ s s₁ s' add, machine.exec machine.init [sampleGet] = some s ∧
      machine.step s (.call 0 (lxDosclose.addArgs .zero 64 4 [1]) true) = some s₁ ∧
      machine.exec s₁ answeredCall = some s' ∧ s'.clients 0 = .out (some add) ∧
      NoFalseSuccess (s.vars.queues && true) (machine.collect (callEvents 0) s₁ answeredCall)
        (lxDosclose.run true add) := by
  refine ⟨_, _, _, _, rfl, rfl, rfl, rfl, ?_⟩
  have hs : machine.Run Windowed machine.init [sampleGet] _ :=
    Machine.run_of_check Windowed.of_fewQueued rfl rfl
  exact (@noFalseSuccess_iff lxDosclose 0 [sampleGet] answeredCall _ _ _ .zero 64 4 [1] true true _
    (by decide) (by decide) hs rfl
    (by exact Machine.run_of_check (DuringCall.of_duringCall 0) rfl rfl) (by rfl)).2
    (.inr (Or.inl rfl))

end Sys

end LxApi32
