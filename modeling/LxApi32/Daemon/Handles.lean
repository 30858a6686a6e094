import LxApi32.Daemon.Outstanding
import LxApi32.Lib.Issued

/-!
# Handles and results

`LX_dmn_get_result` finds a client's result by its handle, and handles are taken from a 32-bit
counter that wraps.  So a client gets its own result as long as no handle comes round again
while somebody still uses it: from the queuing of a command until its result is taken, fewer
than `2 ^ 32 - 1` further commands are queued (`Sys.InWindow`).

* `Sys.ownResult` : in such a run, without a close, the handles of the outstanding commands are
  different, and every client takes the packet that was posted for its own command.
* `Sys.not_ownResult_staleRun` : it does not help that few commands are outstanding at a time.
-/

namespace LxApi32

namespace Sys

/-- What a client can rely on, in a state `s` in which the packets `l` have been posted. -/
structure OwnResult (l : List CommandListEntry) (s : Sys) : Prop where
  /-- Outstanding commands have different handles. -/
  handles_nodup : s.handles.Nodup
  /-- No handle is `0`. -/
  handles_ne_zero : ∀ h ∈ s.handles, h ≠ 0
  /-- The packet that a client takes was posted, once, for the command that it has queued. -/
  takes_own : ∀ i e s' r, s.clients i = .getResult e → machine.step s (.poll i) = some s' →
    s'.clients i = .out r → ∃ pe ∈ l, r = some (pe.parmPacket.rc, pe.parmPacket) ∧
      pe.key = e.key ∧ ∀ pe' ∈ l, pe'.ticket = e.ticket → pe' = pe
  /-- A client's result stays on the done list until the client itself takes it. -/
  kept : ∀ i e pe a s', s.clients i = .getResult e → pe ∈ s.done → pe.key = e.key →
    machine.step s a = some s' → a ≠ .poll i → a ≠ .closeBegin → a ≠ .closeSweep → pe ∈ s'.done

/-- A command is queued only if every handle in use, by an outstanding command or a client that
waits, is fewer than `2 ^ 32 - 1` commands old. -/
def Windowed (s : Sys) : Act → Prop
  | .append _ => (∀ k ∈ s.keys, s.queued < k.ticket + handlePeriod) ∧
      ∀ j e, s.InCall j e → e.key.waited → s.queued < e.ticket + handlePeriod
  | _ => True

/-- ... and nothing is closed. -/
def InWindow (s : Sys) (a : Act) : Prop := s.Windowed a ∧ a ≠ .closeBegin ∧ a ≠ .closeSweep

/-- The invariant of handles and clients: handles are the numbers of the commands modulo the
period. -/
structure HandleInv (s : Sys) : Prop where
  /-- The counter. -/
  cmdhandle : s.cmdhandle = cmdhandleAt s.queued
  /-- Every command is in one place. -/
  issued : Issued (s.keys.map (·.ticket)) s.queued
  /-- The handle of a command comes from its number. -/
  minted : ∀ k ∈ s.keys, k.hcmd = cmdhandleAt (k.ticket + 1)
  /-- The handle a client waits for comes from the number of its command. -/
  inCall : ∀ i e, s.InCall i e →
    e.parmPacket.hcmd = cmdhandleAt (e.ticket + 1) ∧ e.ticket < s.queued
  /-- What carries the number of a client's command is that command. -/
  owner : ∀ i e, s.InCall i e → ∀ k ∈ s.keys, k.ticket = e.ticket → k = e.key
  /-- Different clients have queued different commands. -/
  clientsApart : ∀ i j e e', i ≠ j → s.InCall i e → s.InCall j e' → e.ticket ≠ e'.ticket
  /-- No outstanding handle comes round. -/
  window : ∀ k ∈ s.keys, s.queued ≤ k.ticket + handlePeriod
  /-- No handle that a client waits for comes round. -/
  windowCall : ∀ i e, s.InCall i e → e.key.waited → s.queued ≤ e.ticket + handlePeriod
  /-- A client waits only for a command with a block. -/
  waited : ∀ i e, s.clients i = .getResult e → e.key.waited

/-- The invariant of the packets `l` posted so far. -/
structure PostedInv (l : List CommandListEntry) (s : Sys) : Prop extends HandleInv s where
  /-- Every command is in one place, and posted once. -/
  posted : Issued ((s.keysWith l).map (·.ticket)) s.queued
  /-- What is done was posted. -/
  done_sublist : s.done.Sublist l

theorem HandleInv.ticket_lt {s : Sys} (h : HandleInv s) {k : CommandKey} (hk : k ∈ s.keys) :
    k.ticket < s.queued :=
  h.issued.lt _ (List.mem_map_of_mem hk)

/-! ### One step -/

theorem done_posted {s s' : Sys} {a : Act} (hst : Step s a s') (hb : a ≠ .closeBegin)
    (hs : a ≠ .closeSweep) {l : List CommandListEntry} (h : s.done.Sublist l) :
    s'.done.Sublist (l ++ s.postedBy a) := by
  cases hst with
  | closeBegin => exact absurd rfl hb
  | closeSweep => exact absurd rfl hs
  | pollTake => exact List.eraseP_sublist.trans (h.trans (List.sublist_append_left ..))
  | post hd hk hw =>
    simp only [postedBy, hk, hw, Bool.and_self, ↓reduceIte]
    exact h.append_right _
  | _ => exact h.trans (List.sublist_append_left ..)

theorem mem_done_of_step {s s' : Sys} {a : Act} (hst : Step s a s') (hb : a ≠ .closeBegin)
    (hs : a ≠ .closeSweep) {pe : CommandListEntry} (hpe : pe ∈ s.done)
    (hp : ∀ j e, a = .poll j → s.clients j = .getResult e →
      pe.parmPacket.hcmd ≠ e.parmPacket.hcmd) : pe ∈ s'.done := by
  cases hst with
  | closeBegin => exact absurd rfl hb
  | closeSweep => exact absurd rfl hs
  | pollTake hc =>
    refine (List.mem_eraseP_of_neg ?_).2 hpe
    simpa using hp _ _ rfl hc
  | post => exact List.mem_append_left _ hpe
  | _ => exact hpe

theorem handleInv_of_quiet {s s' : Sys} {a : Act} (h : HandleInv s) (hst : Step s a s')
    (ha : ∀ i, a ≠ .append i) : HandleInv s' := by
  have hsub := keys_subperm hst ha
  obtain ⟨hq, hcmd⟩ := queued_of_step hst ha
  have hcall : ∀ i e, s'.InCall i e → s.InCall i e := fun i e hi =>
    (inCall_of_step hst hi).resolve_right fun ⟨_, heq, _⟩ => ha i heq
  refine ⟨?_, ?_, fun k hk => h.minted k (hsub.subset hk), ?_,
    fun i e hi k hk => h.owner i e (hcall i e hi) k (hsub.subset hk),
    fun i j e e' hij hi hj => h.clientsApart i j e e' hij (hcall i e hi) (hcall j e' hj), ?_, ?_,
    fun i e hi => waited_of_step hst h.waited hi⟩
  · rw [hq, hcmd, h.cmdhandle]
  · rw [hq]
    exact h.issued.subperm_map hsub
  · rw [hq]
    exact fun i e hi => h.inCall i e (hcall i e hi)
  · rw [hq]
    exact fun k hk => h.window k (hsub.subset hk)
  · rw [hq]
    exact fun i e hi hw => h.windowCall i e (hcall i e hi) hw

/-- A client inside its call after an `append` has queued its entry before, or is the one that
queues it now. -/
theorem inCall_append {s : Sys} {i j : ℕ} {args : AddArgs} {e : CommandListEntry}
    (hc : s.clients i = .filled args) (h : (s.append i args.entry).InCall j e) :
    j ≠ i ∧ s.InCall j e ∨
      j = i ∧ e = args.entry.queuedAs (nextCmdhandle s.cmdhandle) s.queued := by
  rcases inCall_of_step (.append hc) h with h' | ⟨e₁, heq, hc', rfl⟩
  · refine .inl ⟨?_, h'⟩
    rintro rfl
    rcases h' with h' | h' <;> rw [hc] at h' <;> cases h'
  · obtain rfl := Act.append.inj heq
    rw [hc] at hc'
    cases hc'
    exact .inr ⟨rfl, rfl⟩

theorem handleInv_append {s : Sys} {i : ℕ} {args : AddArgs} (h : HandleInv s)
    (hc : s.clients i = .filled args) (hg : Windowed s (.append i)) :
    HandleInv (s.append i args.entry) := by
  have hperm := keys_append s i args.entry
  have hmem : ∀ k ∈ (s.append i args.entry).keys, k ∈ s.keys ∨
      k = (args.entry.queuedAs (nextCmdhandle s.cmdhandle) s.queued).key := fun k hk =>
    (List.mem_cons.1 (hperm.subset hk)).symm
  have hnew : nextCmdhandle s.cmdhandle = cmdhandleAt (s.queued + 1) := by
    rw [h.cmdhandle]; rfl
  refine ⟨hnew, h.issued.cons (hperm.map _), ?_, ?_, ?_, ?_, ?_, ?_,
    fun j e hj => waited_of_step (.append hc) h.waited hj⟩
  · intro k hk
    rcases hmem k hk with hk | rfl
    · exact h.minted k hk
    · exact hnew
  · intro j e hj
    rcases inCall_append hc hj with ⟨-, hj⟩ | ⟨-, rfl⟩
    · exact ⟨(h.inCall j e hj).1, Nat.lt_succ_of_lt (h.inCall j e hj).2⟩
    · exact ⟨hnew, Nat.lt_succ_self _⟩
  · intro j e hj k hk heq
    -- old commands have numbers below that of the new one
    rcases inCall_append hc hj with ⟨-, hj⟩ | ⟨-, rfl⟩
    · rcases hmem k hk with hk | rfl
      · exact h.owner j e hj k hk heq
      · exact absurd heq.symm (Nat.ne_of_lt (h.inCall j e hj).2)
    · rcases hmem k hk with hk | rfl
      · exact absurd heq (Nat.ne_of_lt (h.ticket_lt hk))
      · rfl
  · intro j j' e e' hjj hj hj'
    rcases inCall_append hc hj with ⟨-, hj⟩ | ⟨rfl, rfl⟩
    · rcases inCall_append hc hj' with ⟨-, hj'⟩ | ⟨-, rfl⟩
      · exact h.clientsApart j j' e e' hjj hj hj'
      · exact Nat.ne_of_lt (h.inCall j e hj).2
    · rcases inCall_append hc hj' with ⟨-, hj'⟩ | ⟨rfl, -⟩
      · exact (Nat.ne_of_lt (h.inCall j' e' hj').2).symm
      · exact absurd rfl hjj
  · intro k hk
    rcases hmem k hk with hk | rfl
    · exact hg.1 k hk
    · exact Nat.add_le_add_left (by decide : 1 ≤ handlePeriod) s.queued
  · intro j e hj hw
    rcases inCall_append hc hj with ⟨-, hj⟩ | ⟨-, rfl⟩
    · exact hg.2 j e hj hw
    · exact Nat.add_le_add_left (by decide : 1 ≤ handlePeriod) s.queued

theorem handleInv_step {s s' : Sys} {a : Act} (h : HandleInv s) (hg : Windowed s a)
    (hst : Step s a s') : HandleInv s' := by
  by_cases ha : ∃ i, a = .append i
  · obtain ⟨i, rfl⟩ := ha
    cases hst with
    | append hc => exact handleInv_append h hc hg
  · exact handleInv_of_quiet h hst fun i hi => ha ⟨i, hi⟩

theorem postedInv_step {l : List CommandListEntry} {s s' : Sys} {a : Act} (h : PostedInv l s)
    (hg : InWindow s a) (hst : Step s a s') : PostedInv (l ++ s.postedBy a) s' := by
  obtain ⟨hw, hb, hs⟩ := hg
  refine ⟨handleInv_step h.toHandleInv hw hst, ?_, done_posted hst hb hs h.done_sublist⟩
  by_cases ha : ∃ i, a = .append i
  · obtain ⟨i, rfl⟩ := ha
    cases hst with
    | append =>
      simp only [postedBy, List.append_nil]
      exact h.posted.cons ((keysWith_append ..).map _)
  · have ha : ∀ i, a ≠ .append i := fun i hi => ha ⟨i, hi⟩
    rw [(queued_of_step hst ha).1]
    exact h.posted.subperm_map (keysWith_posted hst ha hb hs l)

theorem handleInv_init : HandleInv machine.init where
  cmdhandle := rfl
  issued := .nil
  minted := nofun
  inCall := by rintro i e (h | h) <;> cases h
  owner := by rintro i e (h | h) <;> cases h
  clientsApart := by rintro i j e e' - (h | h) <;> cases h
  window := nofun
  windowCall := by rintro i e (h | h) <;> cases h
  waited := nofun

theorem postedInv_init : PostedInv [] machine.init where
  toHandleInv := handleInv_init
  posted := .nil
  done_sublist := .slnil

/-! ### What the invariant gives -/

/-- Two numbers within the window have different handles. -/
theorem handle_inj {m n q : ℕ} (hm : m < q) (hm' : q ≤ m + handlePeriod) (hn : n < q)
    (hn' : q ≤ n + handlePeriod) (heq : cmdhandleAt (m + 1) = cmdhandleAt (n + 1)) : m = n :=
  cmdhandleAt_inj (hm.trans_le hn') (hn.trans_le hm') heq

namespace HandleInv

variable {s : Sys}

theorem nodup_handles (h : HandleInv s) : s.handles.Nodup := by
  refine List.Nodup.map_on (fun k hk k' hk' heq => ?_) (.of_map _ h.issued.nodup)
  refine List.inj_on_of_nodup_map h.issued.nodup hk hk' ?_
  exact handle_inj (h.ticket_lt hk) (h.window k hk) (h.ticket_lt hk') (h.window k' hk')
    ((h.minted k hk).symm.trans (heq.trans (h.minted k' hk')))

/-- An outstanding command with the handle a client waits for is the client's command. -/
theorem key_eq (h : HandleInv s) {i : ℕ} {e : CommandListEntry} (hi : s.clients i = .getResult e)
    {k : CommandKey} (hk : k ∈ s.keys) (heq : k.hcmd = e.parmPacket.hcmd) : k = e.key := by
  obtain ⟨hm, hlt⟩ := h.inCall i e (.inr hi)
  have hwin := h.windowCall i e (.inr hi) (h.waited i e hi)
  refine h.owner i e (.inr hi) k hk ?_
  exact handle_inj (h.ticket_lt hk) (h.window k hk) hlt hwin
    ((h.minted k hk).symm.trans (heq.trans hm))

end HandleInv

theorem mem_keys_of_done {s : Sys} {pe : CommandListEntry} (hpe : pe ∈ s.done) :
    pe.key ∈ s.keys :=
  List.mem_map_of_mem (List.mem_append_right _ (List.mem_append_right _ hpe))

namespace PostedInv

variable {l : List CommandListEntry} {s : Sys}

theorem nodup_posted (h : PostedInv l s) : (l.map (·.ticket)).Nodup := by
  have hsub : (l.map (·.key)).Sublist (s.keysWith l) :=
    ((List.sublist_append_right _ _).trans (List.sublist_append_right _ _)).map _
  have hnodup := h.posted.nodup.sublist (hsub.map _)
  rw [List.map_map] at hnodup
  exact hnodup

theorem takesOwn (h : PostedInv l s) : OwnResult l s where
  handles_nodup := h.nodup_handles
  handles_ne_zero := by
    intro hd hmem
    obtain ⟨k, hk, rfl⟩ := List.mem_map.1 hmem
    rw [h.minted k hk]
    exact cmdhandleAt_ne_zero _
  takes_own := by
    intro i e s' r hi hst hr
    cases step_cases hst with
    | pollNone => rw [hi] at hr; cases hr
    | @pollTake _ e' pe hc hf =>
      rw [hi] at hc
      cases hc
      -- the search goes by the handle, and only the client's own command has it
      have hpe : pe ∈ s.done := List.mem_of_find?_eq_some hf
      have hhcmd : pe.parmPacket.hcmd = e.parmPacket.hcmd := by simpa using List.find?_some hf
      have hkey : pe.key = e.key := h.key_eq hi (mem_keys_of_done hpe) hhcmd
      have hr' : Client.out _ = Client.out r := (clients_setClient_self s i _).symm.trans hr
      have hposted := h.done_sublist.subset hpe
      refine ⟨pe, hposted, (Client.out.inj hr').symm, hkey, ?_⟩
      intro pe' hpe' heq
      refine List.inj_on_of_nodup_map h.nodup_posted hpe' hposted ?_
      exact heq.trans (congrArg CommandKey.ticket hkey).symm
  kept := by
    intro i e pe a s' hi hpe hkey hst ha hb hs
    apply mem_done_of_step (step_cases hst) hb hs hpe
    intro j e' haj hj heq
    have hji : i ≠ j := by rintro rfl; exact ha haj
    have hkey' := h.key_eq hj (mem_keys_of_done hpe) heq
    refine h.clientsApart i j e e' hji (.inr hi) (.inr hj) ?_
    exact congrArg CommandKey.ticket (hkey.symm.trans hkey')

end PostedInv

/-- **A client takes its own result**, and the handles of the outstanding commands are
different, as long as no handle comes round while it is in use. -/
theorem ownResult {as : List Act} {s : Sys} (h : machine.Run InWindow machine.init as s) :
    OwnResult (machine.collect postedBy machine.init as) s := by
  have hI : PostedInv ([] ++ machine.collect postedBy machine.init as) s :=
    h.history (fun _ _ _ _ hI hg hst => postedInv_step hI hg (step_cases hst)) postedInv_init
  exact hI.takesOwn

/-! ### A handle that comes round -/

/-- Client `0` queues a command and waits, the daemon executes it and posts the result. -/
def firstResult : List Act :=
  [sampleGet, .call 0 sampleWait true, .append 0, .runOn 0, .getNext, .getNext, .getNext,
    .setResults 0 0 [2] true]

/-- Client `1` queues a command for which it does not wait, the daemon fetches and forgets it. -/
def round : List Act :=
  [.call 1 sampleArgs true, .append 1, .runOn 1, sampleGet, .getNext, .getNext, .getNext,
    .setResults 0 0 [] true]

/-- Client `0` does not come back from its wait while `2 ^ 32 - 2` commands pass, and then
client `1` queues another one. -/
def staleRun : List Act :=
  firstResult ++ ((List.replicate (handlePeriod - 1) round).flatten ++
    [.call 1 sampleArgs true, .append 1])

/-- The states between two rounds: the only outstanding command is the first one, which is done. -/
structure Stale (n : ℕ) (s : Sys) : Prop where
  queues : s.vars.pid ≠ 0
  cmdhandle : s.cmdhandle = cmdhandleAt n
  waiting : s.waiting = []
  fetched : s.fetched = []
  daemon : s.daemon = .user
  out : ∃ r, s.clients 1 = .out r
  done : ∃ pe, s.done = [pe] ∧ pe.parmPacket.hcmd = cmdhandleAt 1

/-- At most two commands are outstanding. -/
def FewOutstanding (s : Sys) : Prop := s.outstanding.length ≤ 2

theorem stale_firstResult :
    ∃ s, machine.exec machine.init firstResult = some s ∧ Stale 1 s :=
  ⟨_, rfl, ⟨by decide, rfl, rfl, rfl, rfl, ⟨_, rfl⟩, ⟨_, rfl, rfl⟩⟩⟩

theorem always_firstResult : machine.Always FewOutstanding machine.init firstResult := by
  simp [firstResult, Machine.Always, machine, step, initial, call, setClient, append, runOn,
    sampleGet, firstPid, getNext, wakeDaemon, setResults, AddArgs.entry, sampleWait,
    DaemonVars.attach,
    DaemonVars.initial, DaemonVars.queues, DaemonState.toNat,
    CmdParmPacket.waited, CommandListEntry.fetchedBy, CommandListEntry.queuedAs, FewOutstanding,
    outstanding, pending, DaemonPc.inHand, CmdParmPacket.zero]

/-- The state after a round. -/
def afterRound (s : Sys) : Sys :=
  { s with
    cmdhandle := nextCmdhandle s.cmdhandle
    clients := Function.update s.clients 1 (.out (some (0,
      { CmdParmPacket.zero with
        cmd := sampleArgs.ulCmd, hcmd := nextCmdhandle s.cmdhandle, cbCmdDataLen := 1 })))
    mem := Function.update s.mem 64 [1]
    queued := s.queued + 1 }

theorem Stale.afterRound {n : ℕ} {s : Sys} (h : Stale n s) : Stale (n + 1) s.afterRound where
  queues := h.queues
  cmdhandle := congrArg nextCmdhandle h.cmdhandle
  waiting := h.waiting
  fetched := h.fetched
  daemon := h.daemon
  out := ⟨_, Function.update_self 1 _ s.clients⟩
  done := h.done

theorem Stale.round {n : ℕ} {s : Sys} (h : Stale n s) :
    machine.exec s round = some s.afterRound ∧ machine.Always FewOutstanding s round := by
  obtain ⟨hq, hc, hw, hf, hd, ⟨r, hr⟩, ⟨pe, hpe, -⟩⟩ := h
  obtain ⟨vars, cmdhandle, waiting, done, daemon, fetched, clients, closing, mem, queued⟩ := s
  simp only at hq hc hw hf hd hr hpe
  subst hc hw hf hd hpe
  have hq' := DaemonVars.queues_iff.2 hq
  have hattach : ∀ cur, vars.attach cur = vars := fun cur => if_neg hq
  constructor
  · simp [Sys.round, Sys.afterRound, Machine.exec, machine, step, hr, call, hq', setClient, append,
      runOn, sampleGet, getNext, hattach, wakeDaemon, setResults, AddArgs.entry, sampleArgs,
      CmdParmPacket.waited, CommandListEntry.fetchedBy, CommandListEntry.queuedAs,
      CmdParmPacket.zero]
  · simp [Sys.round, Machine.Always, machine, step, hr, call, hq', setClient, append, runOn,
      sampleGet, getNext, hattach, wakeDaemon, setResults, AddArgs.entry, sampleArgs,
      CmdParmPacket.waited, CommandListEntry.fetchedBy, CommandListEntry.queuedAs, FewOutstanding,
      outstanding, pending, DaemonPc.inHand, CmdParmPacket.zero]

/-- Any number of rounds. -/
theorem Stale.rounds {n : ℕ} {s : Sys} (h : Stale n s) (m : ℕ) :
    ∃ s', machine.exec s (List.replicate m Sys.round).flatten = some s' ∧ Stale (n + m) s' ∧
      machine.Always FewOutstanding s (List.replicate m Sys.round).flatten := by
  induction m generalizing n s with
  | zero =>
    obtain ⟨pe, hpe, -⟩ := h.done
    refine ⟨s, rfl, h, ?_⟩
    simp [Machine.Always, FewOutstanding, outstanding, pending, h.daemon, h.waiting, h.fetched, hpe,
      DaemonPc.inHand]
  | succ m ih =>
    obtain ⟨s', hexec, hstale, halways⟩ := ih h.afterRound
    rw [List.replicate_succ, List.flatten_cons]
    refine ⟨s', Machine.exec_trans h.round.1 hexec, ?_, ?_⟩
    · rwa [Nat.add_right_comm, Nat.add_assoc] at hstale
    · apply Machine.always_append h.round.2
      intro s₁ hs₁
      rw [h.round.1] at hs₁
      cases hs₁
      exact halways

/-- The command that client `1` queues next has the handle `cmdhandleAt (n + 1)`. -/
theorem Stale.append {n : ℕ} {s : Sys} (h : Stale n s) :
    ∃ s', machine.exec s [.call 1 sampleArgs true, .append 1] = some s' ∧
      s'.handles = [cmdhandleAt (n + 1), cmdhandleAt 1] ∧
      machine.Always FewOutstanding s [.call 1 sampleArgs true, .append 1] := by
  obtain ⟨hq, hc, hw, hf, hd, ⟨r, hr⟩, ⟨pe, hpe, hpe'⟩⟩ := h
  obtain ⟨vars, cmdhandle, waiting, done, daemon, fetched, clients, closing, mem, queued⟩ := s
  simp only at hq hc hw hf hd hr hpe
  subst hc hw hf hd hpe
  have hq' := DaemonVars.queues_iff.2 hq
  refine ⟨_, by simp [Machine.exec, machine, step, hr, call, hq', setClient]; rfl, ?_, ?_⟩
  · simp [handles, keys, keysWith, pending, DaemonPc.inHand, Sys.append, setClient, hpe',
      CommandListEntry.queuedAs, cmdhandleAt]
  · simp [Machine.Always, machine, step, hr, call, hq', setClient, FewOutstanding, outstanding,
      pending, DaemonPc.inHand, Sys.append]

theorem mem_staleRun {a : Act} (h : a ∈ staleRun) :
    a ∈ firstResult ∨ a ∈ Sys.round ∨ a ∈ [.call 1 sampleArgs true, .append 1] := by
  simp only [staleRun, List.mem_append] at h
  refine h.imp_right (Or.imp_left ?_)
  intro h
  obtain ⟨l, hl, ha⟩ := List.mem_flatten.1 h
  rwa [List.eq_of_mem_replicate hl] at ha

/-- In `staleRun` nothing is closed and at most two commands are outstanding at a time, and then
two commands have the same handle. -/
theorem not_ownResult_staleRun :
    Act.closeBegin ∉ staleRun ∧ Act.closeSweep ∉ staleRun ∧
    machine.Always FewOutstanding machine.init staleRun ∧
    ∃ s, machine.exec machine.init staleRun = some s ∧
      ¬ OwnResult (machine.collect postedBy machine.init staleRun) s := by
  obtain ⟨s₁, hexec₁, hstale₁⟩ := stale_firstResult
  obtain ⟨s₂, hexec₂, hstale₂, halways₂⟩ := hstale₁.rounds (handlePeriod - 1)
  obtain ⟨s₃, hexec₃, hhandles, halways₃⟩ := hstale₂.append
  refine ⟨?_, ?_, ?_, s₃, ?_, ?_⟩
  · intro h
    rcases mem_staleRun h with h | h | h <;> revert h <;> decide
  · intro h
    rcases mem_staleRun h with h | h | h <;> revert h <;> decide
  · apply Machine.always_append always_firstResult
    intro s hs
    rw [hexec₁] at hs
    cases hs
    apply Machine.always_append halways₂
    intro s hs
    rw [hexec₂] at hs
    cases hs
    exact halways₃
  · exact Machine.exec_trans hexec₁ (Machine.exec_trans hexec₂ hexec₃)
  · intro hown
    have hdup := hown.handles_nodup
    rw [hhandles] at hdup
    -- the handle of the new command is that of the first one
    refine (List.nodup_cons.1 hdup).1 (List.mem_singleton.2 ?_)
    have hperiod : 1 + (handlePeriod - 1) + 1 = 0 + handlePeriod + 1 := rfl
    rw [hperiod, cmdhandleAt_period]

/-- A test for `Windowed`: fewer than `2 ^ 32 - 1` commands in all. -/
def fewQueued (s : Sys) : Act → Bool
  | .append _ => decide (s.queued < handlePeriod)
  | _ => true

theorem Windowed.of_fewQueued (s : Sys) (a : Act) (h : fewQueued s a = true) : Windowed s a := by
  cases a with
  | append i =>
    have hlt : s.queued < handlePeriod := of_decide_eq_true h
    have hle : ∀ t, s.queued < t + handlePeriod := fun t => hlt.trans_le (Nat.le_add_left ..)
    exact ⟨fun _ _ => hle _, fun _ _ _ _ => hle _⟩
  | _ => trivial

/-- A test for `InWindow`. -/
def inWindow (s : Sys) (a : Act) : Bool :=
  s.fewQueued a && (a != .closeBegin && a != .closeSweep)

theorem InWindow.of_inWindow (s : Sys) (a : Act) (h : inWindow s a = true) : InWindow s a := by
  simp only [inWindow, Bool.and_eq_true, bne_iff_ne] at h
  exact ⟨.of_fewQueued s a h.1, h.2⟩

/-- `ownResult` after client `0` has taken its result. -/
theorem ownResult_taken :
    ∃ s, machine.exec machine.init (firstResult ++ [.poll 0]) = some s ∧
      OwnResult (machine.collect postedBy machine.init (firstResult ++ [.poll 0])) s := by
  obtain ⟨s, hs⟩ := Option.isSome_iff_exists.1
    (rfl : (machine.exec machine.init (firstResult ++ [.poll 0])).isSome = true)
  exact ⟨s, hs, ownResult (Machine.run_of_check InWindow.of_inWindow hs rfl)⟩

end Sys

end LxApi32
