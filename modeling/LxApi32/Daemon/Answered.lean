import LxApi32.Daemon.Outstanding

/-!
# Waiting commands and their answers

A client that waits for its result finds it only if its command is queued and will be fetched,
is with the daemon, or is done.  Four steps break this: `LX_daemon_closed` while the daemon
holds a command that somebody waits for, a `CMDSETRESULTS` for which there is no memory, a
command queued after the daemon was closed, and a command that takes the handle of another one.

* `Sys.answered` : in a run without such steps (`Sys.Careful`) every waiting command is in
  exactly one of the three places.
* `Sys.not_answered_closedWhileFetched` : a daemon that is closed while it executes a command
  leaves a client that waits for ever.
-/

namespace LxApi32

namespace Sys

/-- A command with the handle `h` is in the list. -/
def HasHandle (l : List CommandListEntry) (h : ULONG) : Prop :=
  ∃ e ∈ l, e.parmPacket.hcmd = h

/-- The waiting list is served: a daemon is attached, or a `LX_daemon_closed` is under way and
has still to answer the list. -/
def Served (s : Sys) : Prop := s.vars.pid ≠ 0 ∨ s.closing ≠ 0

/-- The command `h` is in `lx_waiting_command_list`, which is served. -/
def IsQueued (s : Sys) (h : ULONG) : Prop := HasHandle s.waiting h ∧ s.Served

/-- The command `h` is fetched by the live daemon and not yet posted. -/
def IsFetched (s : Sys) (h : ULONG) : Prop :=
  HasHandle (s.daemon.inHand ++ s.fetched) h ∧ s.daemon ≠ .gone

/-- The command `h` is in `lx_done_command_list`. -/
def IsDone (s : Sys) (h : ULONG) : Prop := HasHandle s.done h

/-- Every client in `LX_dmn_get_result` has its command in exactly one place. -/
def Answered (s : Sys) : Prop :=
  ∀ i e, s.clients i = .getResult e →
    s.IsQueued e.parmPacket.hcmd ∧ ¬ s.IsFetched e.parmPacket.hcmd ∧ ¬ s.IsDone e.parmPacket.hcmd ∨
    ¬ s.IsQueued e.parmPacket.hcmd ∧ s.IsFetched e.parmPacket.hcmd ∧ ¬ s.IsDone e.parmPacket.hcmd ∨
    ¬ s.IsQueued e.parmPacket.hcmd ∧ ¬ s.IsFetched e.parmPacket.hcmd ∧ s.IsDone e.parmPacket.hcmd

/-- The steps that keep the commands answered: none of them loses a command, and a command is
queued while the list is served and with a handle that is still free. -/
def Careful (s : Sys) (a : Act) : Prop :=
  ¬ s.Loses a ∧ ∀ i args, a = .append i → s.clients i = .filled args →
    (args.entry.key.waited → s.Served) ∧
    ∀ k ∈ s.keys, k.waited ∨ args.entry.key.waited → k.hcmd ≠ nextCmdhandle s.cmdhandle

/-- Two commands, of which somebody waits for one, have different handles. -/
def HandlesApart (k k' : CommandKey) : Prop := k.waited ∨ k'.waited → k.hcmd ≠ k'.hcmd

theorem HandlesApart.symm {k k' : CommandKey} (h : HandlesApart k k') : HandlesApart k' k :=
  fun hw => (h hw.symm).symm

/-! ### Who serves the waiting list -/

/-- The part of the invariant about the daemon. -/
structure ServeInv (s : Sys) : Prop where
  /-- A waiting list with a command that somebody waits for is served. -/
  served : ∀ e ∈ s.waiting, e.key.waited → s.Served
  /-- A daemon process is attached. -/
  pid_ne : s.daemon ≠ .gone → s.vars.pid ≠ 0
  /-- Without a daemon process nothing is fetched. -/
  fetched_nil : s.daemon = .gone → s.fetched = []

theorem wakeDaemon_eq_gone {pc : DaemonPc} : wakeDaemon pc = .gone ↔ pc = .gone := by
  cases pc <;> simp [wakeDaemon]

/-- Steps of the daemon's thread inside the driver that leave the queues alone. -/
theorem ServeInv.setPc {s : Sys} (h : ServeInv s) {pc : DaemonPc} (hd : s.daemon ≠ .gone)
    (hpc : pc ≠ .gone) : ServeInv { s with daemon := pc } :=
  ⟨h.served, fun _ => h.pid_ne hd, fun hg => absurd hg hpc⟩

theorem serveInv_step {s s' : Sys} {a : Act} (h : ServeInv s) (hg : Careful s a)
    (hst : Step s a s') : ServeInv s' := by
  cases hst with
  | callNoDaemon => exact ⟨h.served, h.pid_ne, h.fetched_nil⟩
  | callNoMemory => exact ⟨h.served, h.pid_ne, h.fetched_nil⟩
  | callFilled => exact ⟨h.served, h.pid_ne, h.fetched_nil⟩
  | append hc =>
    refine ⟨?_, h.pid_ne, h.fetched_nil⟩
    intro e he hw
    rcases List.mem_append.1 he with he | he
    · exact h.served e he hw
    · -- the new command: its guard says that the list is served
      obtain rfl := List.mem_singleton.1 he
      exact (hg.2 _ _ rfl hc).1 hw
  | runOn =>
    exact ⟨h.served, fun hd => h.pid_ne (wakeDaemon_eq_gone.not.1 hd),
      fun hd => h.fetched_nil (wakeDaemon_eq_gone.1 hd)⟩
  | pollNone => exact h
  | pollTake => exact ⟨h.served, h.pid_ne, h.fetched_nil⟩
  | cmdGet =>
    have hp := DaemonVars.attach_pid_ne s.vars
    exact ⟨fun _ _ _ => .inl (hp _), fun _ => hp _, nofun⟩
  | testEmpty hd => exact h.setPc (by simp [hd]) (by simp)
  | testFull hd => exact h.setPc (by simp [hd]) (by simp)
  | register hd => exact h.setPc (by simp [hd]) (by simp)
  | block hd => exact h.setPc (by simp [hd]) (by simp)
  | woken hd => exact h.setPc (by simp [hd]) (by simp)
  | popNone hd => exact h.setPc (by simp [hd]) (by simp)
  | signal hd => exact h.setPc (by simp [hd]) (by simp)
  | resched hd => exact h.setPc (by simp [hd]) (by simp)
  | pop hd hw =>
    have hp := h.pid_ne (by simp [hd])
    exact ⟨fun _ _ _ => .inl hp, fun _ => hp, nofun⟩
  | pushBack hd =>
    have hp := h.pid_ne (by simp [hd])
    exact ⟨fun _ _ _ => .inl hp, fun _ => hp, nofun⟩
  | deliver hd =>
    have hp := h.pid_ne (by simp [hd])
    exact ⟨h.served, fun _ => hp, nofun⟩
  | post hd => exact ⟨h.served, h.pid_ne, fun hg' => by simp [hd] at hg'⟩
  | postNothing hd => exact ⟨h.served, h.pid_ne, fun hg' => by simp [hd] at hg'⟩
  | closeBegin =>
    -- nobody is attached any more, but this close has still to answer the list
    exact ⟨fun _ _ _ => .inr (Nat.succ_ne_zero _), fun hd => absurd rfl hd, fun _ => rfl⟩
  | closeSweep => exact ⟨nofun, h.pid_ne, h.fetched_nil⟩

/-! ### Where the commands are -/

/-- The part of the invariant about handles and clients. -/
structure ClientInv (s : Sys) : Prop where
  /-- A command somebody waits for has its handle alone. -/
  handlesApart : s.keys.Pairwise HandlesApart
  /-- The commands that clients wait for are outstanding. -/
  mem_keys : ∀ i e, s.InCall i e → e.key.waited → e.key ∈ s.keys
  /-- Different clients wait for different handles. -/
  clientsApart : ∀ i j e e', i ≠ j → s.InCall i e → s.InCall j e' →
    e.key.waited → e'.key.waited → e.parmPacket.hcmd ≠ e'.parmPacket.hcmd
  /-- A client waits only for a command with a block. -/
  waited : ∀ i e, s.clients i = .getResult e → e.key.waited

theorem handlesApart_step {s s' : Sys} {a : Act} (h : ClientInv s) (hg : Careful s a)
    (hst : Step s a s') : s'.keys.Pairwise HandlesApart := by
  by_cases ha : ∃ i, a = .append i
  · obtain ⟨i, rfl⟩ := ha
    cases hst with
    | append hc =>
      rw [(keys_append ..).pairwise_iff HandlesApart.symm, List.pairwise_cons]
      refine ⟨?_, h.handlesApart⟩
      intro k hk hw
      exact ((hg.2 _ _ rfl hc).2 k hk hw.symm).symm
  · obtain ⟨l, hperm, hsub⟩ := keys_subperm hst (fun i hi => ha ⟨i, hi⟩)
    exact (hperm.pairwise_iff HandlesApart.symm).1 (h.handlesApart.sublist hsub)

/-- The handle a client gets when it queues a command is not the one another client waits for. -/
theorem hcmd_ne_next {s : Sys} {i j : ℕ} {args : AddArgs} {e : CommandListEntry} (h : ClientInv s)
    (hg : Careful s (.append i)) (hc : s.clients i = .filled args) (hj : s.InCall j e)
    (hw : e.key.waited) : e.parmPacket.hcmd ≠ nextCmdhandle s.cmdhandle :=
  (hg.2 _ _ rfl hc).2 e.key (h.mem_keys _ _ hj hw) (.inl hw)

theorem clientInv_step {s s' : Sys} {a : Act} (h : ClientInv s) (hg : Careful s a)
    (hst : Step s a s') : ClientInv s' := by
  refine ⟨handlesApart_step h hg hst, ?_, ?_, ?_⟩
  · intro j e hj hw
    rcases inCall_of_step hst hj with hj' | ⟨e₀, rfl, hc, rfl⟩
    · -- a client that takes a result takes another one's only if they share a handle
      apply mem_keys_of_step hst hg.1 (h.mem_keys j e hj' hw) hw
      intro i e' r ha hc hr
      exact h.clientsApart j i e e' (hj.ne_of_out hr) hj' (.inr hc) hw (h.waited i e' hc)
    · cases hst with
      | append hc' =>
        rw [hc] at hc'
        cases hc'
        exact (keys_append ..).symm.subset List.mem_cons_self
  · intro i j e e' hij hi hj hw hw'
    rcases inCall_of_step hst hi with hi' | ⟨e₀, rfl, hc, rfl⟩
    · rcases inCall_of_step hst hj with hj' | ⟨e₀, rfl, hc, rfl⟩
      · exact h.clientsApart i j e e' hij hi' hj' hw hw'
      · exact hcmd_ne_next h hg hc hi' hw
    · rcases inCall_of_step hst hj with hj' | ⟨e₁, ha, -, -⟩
      · exact (hcmd_ne_next h hg hc hj' hw').symm
      · exact absurd (Act.append.inj ha) hij
  · intro i e hi
    exact waited_of_step hst h.waited hi

/-- The invariant. -/
def AnswerInv (s : Sys) : Prop := ServeInv s ∧ ClientInv s

theorem answerInv_init : AnswerInv machine.init := by
  refine ⟨⟨nofun, fun h => absurd rfl h, fun _ => rfl⟩, .nil, ?_, ?_, nofun⟩
  · rintro i e (h | h) <;> cases h
  · rintro i j e e' - (h | h) <;> cases h

/-- The three places of an outstanding command. -/
theorem mem_places {s : Sys} {e : CommandListEntry} (h : e ∈ s.outstanding) :
    e ∈ s.waiting ∨ e ∈ s.daemon.inHand ++ s.fetched ∨ e ∈ s.done := by
  rcases mem_outstanding.1 h with h | h | h | h
  · exact .inr (.inl (List.mem_append_left _ h))
  · exact .inl h
  · exact .inr (.inl (List.mem_append_right _ h))
  · exact .inr (.inr h)

/-- Two places that share the handle of a command somebody waits for. -/
theorem not_hasHandle_of_pairwise {l l' : List CommandListEntry} {e : CommandListEntry}
    (h : ∀ a ∈ l, ∀ b ∈ l', HandlesApart a.key b.key) (he : e ∈ l) (hw : e.key.waited) :
    ¬ HasHandle l' e.parmPacket.hcmd := by
  rintro ⟨e', he', heq⟩
  exact h e he e' he' (.inl hw) heq.symm

theorem AnswerInv.inOnePlace {s : Sys} (h : AnswerInv s) : s.Answered := by
  intro i e hi
  have hw := h.2.waited i e hi
  obtain ⟨e', he', hkey⟩ := mem_keys.1 (h.2.mem_keys i e (.inr hi) hw)
  have hhcmd : e'.parmPacket.hcmd = e.parmPacket.hcmd := congrArg CommandKey.hcmd hkey
  have hw' : e'.key.waited := hkey ▸ hw
  -- the three places, pairwise without a common handle
  have hap : (s.outstanding).Pairwise fun a b => HandlesApart a.key b.key :=
    List.pairwise_map.1 h.2.handlesApart
  simp only [outstanding, pending, List.append_assoc] at hap
  obtain ⟨-, hap₁, hhand⟩ := List.pairwise_append.1 hap
  obtain ⟨-, hap₂, hwait⟩ := List.pairwise_append.1 hap₁
  obtain ⟨-, -, hfetch⟩ := List.pairwise_append.1 hap₂
  have hWF : ∀ a ∈ s.waiting, ∀ b ∈ s.daemon.inHand ++ s.fetched, HandlesApart a.key b.key := by
    intro a ha b hb
    rcases List.mem_append.1 hb with hb | hb
    · exact (hhand b hb a (List.mem_append_left _ ha)).symm
    · exact hwait a ha b (List.mem_append_left _ hb)
  have hWD : ∀ a ∈ s.waiting, ∀ b ∈ s.done, HandlesApart a.key b.key := fun a ha b hb =>
    hwait a ha b (List.mem_append_right _ hb)
  have hFD : ∀ a ∈ s.daemon.inHand ++ s.fetched, ∀ b ∈ s.done, HandlesApart a.key b.key := by
    intro a ha b hb
    rcases List.mem_append.1 ha with ha | ha
    · exact hhand a ha b (List.mem_append_right _ (List.mem_append_right _ hb))
    · exact hfetch a ha b hb
  rw [← hhcmd]
  rcases mem_places he' with he' | he' | he'
  · exact .inl ⟨⟨⟨e', he', rfl⟩, h.1.served e' he' hw'⟩,
      fun hf => not_hasHandle_of_pairwise hWF he' hw' hf.1, not_hasHandle_of_pairwise hWD he' hw'⟩
  · refine .inr (.inl ⟨?_, ⟨⟨e', he', rfl⟩, ?_⟩, not_hasHandle_of_pairwise hFD he' hw'⟩)
    · intro hq
      exact not_hasHandle_of_pairwise (fun a ha b hb => (hWF b hb a ha).symm) he' hw' hq.1
    · intro hd
      rw [hd, h.1.fetched_nil hd] at he'
      cases he'
  · refine .inr (.inr ⟨?_, ?_, ⟨e', he', rfl⟩⟩)
    · intro hq
      exact not_hasHandle_of_pairwise (fun a ha b hb => (hWD b hb a ha).symm) he' hw' hq.1
    · intro hf
      exact not_hasHandle_of_pairwise (fun a ha b hb => (hFD b hb a ha).symm) he' hw' hf.1

/-- **Every waiting command is answered** in a run of careful steps. -/
theorem answered {as : List Act} {s : Sys} (h : machine.Run Careful machine.init as s) :
    s.Answered := by
  have hI : AnswerInv s := h.invariant
    (fun _ _ _ hI hg hst => ⟨serveInv_step hI.1 hg (step_cases hst),
      clientInv_step hI.2 hg (step_cases hst)⟩) answerInv_init
  exact hI.inOnePlace

/-- Client `0` queues the command, and the daemon fetches it. -/
def fetched0 : List Act :=
  [sampleGet, .call 0 sampleWait true, .append 0, .runOn 0, .getNext, .getNext, .getNext]

/-- The daemon is closed while it has the command: the client waits for ever. -/
theorem not_answered_closedWhileFetched :
    ∃ s, machine.exec machine.init (fetched0 ++ [.closeBegin, .closeSweep]) = some s ∧
      ¬ s.Answered := by
  refine ⟨_, rfl, ?_⟩
  intro h
  rcases h 0 _ rfl with ⟨⟨⟨_, hq, -⟩, -⟩, -⟩ | ⟨-, ⟨⟨_, hf, -⟩, -⟩, -⟩ | ⟨-, -, ⟨_, hd, -⟩⟩
  · cases hq
  · cases hf
  · cases hd

theorem Careful.of_ne_append {s : Sys} {a : Act} (hl : ¬ s.Loses a) (ha : ∀ i, a ≠ .append i) :
    Careful s a :=
  ⟨hl, fun i _ heq => absurd heq (ha i)⟩

/-- A test for careful steps: no close, no failed allocation, a free handle. -/
def careful (s : Sys) : Act → Bool
  | .append _ => s.vars.queues && s.keys.all fun k => k.hcmd != nextCmdhandle s.cmdhandle
  | .setResults _ _ _ alloc => alloc
  | .closeBegin => false
  | _ => true

theorem Careful.of_careful (s : Sys) (a : Act) (h : careful s a = true) : Careful s a := by
  cases a with
  | append i =>
    simp only [careful, Bool.and_eq_true, DaemonVars.queues_iff, List.all_eq_true] at h
    exact ⟨id, fun _ _ _ _ => ⟨fun _ => .inl h.1, fun k hk _ => by simpa using h.2 k hk⟩⟩
  | setResults k rc data alloc =>
    exact .of_ne_append (fun hl => Bool.false_ne_true (hl.1.symm.trans h)) (by rintro i ⟨⟩)
  | closeBegin => cases h
  | _ => exact .of_ne_append id (by rintro i ⟨⟩)

/-- `answered` after the daemon has posted the result. -/
theorem answered_posted :
    ∃ s, machine.exec machine.init (fetched0 ++ [.setResults 0 0 [2] true]) = some s ∧
      s.Answered := by
  obtain ⟨s, hs⟩ := Option.isSome_iff_exists.1
    (rfl : (machine.exec machine.init (fetched0 ++ [.setResults 0 0 [2] true])).isSome = true)
  exact ⟨s, hs, answered (Machine.run_of_check Careful.of_careful hs rfl)⟩

end Sys

end LxApi32
