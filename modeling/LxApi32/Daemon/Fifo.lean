import LxApi32.Daemon.Outstanding

/-!
# The order in which commands reach the daemon

The daemon takes an entry off the list under one section of `lx_cmd_lock` and, if it is too
long for the daemon's buffer, puts it back at the head under another one, while clients append
at the tail in between.  The data of a command for which somebody waits are copied only when
the daemon fetches it, out of the client's block.

* `Sys.delivered_in_order` : what `CMDGET` has handed to the daemon is a prefix of what was
  appended to the list, with the packet and the data bytes of the call, as long as a client's
  block is not used by another call while the command is on its way (`Sys.OwnBlock`).
-/

namespace LxApi32

/-- A command as it is queued and as it reaches the daemon: the fields of the packet that
belong to the driver, and the data. -/
structure Command where
  /-- The driver-side part of the packet. -/
  key : CommandKey
  /-- The data bytes. -/
  bytes : List UInt8
  deriving DecidableEq, Repr

/-- The data with which `LX_dmn_add_command` is called. -/
def AddArgs.bytes (a : AddArgs) : List UInt8 := a.data.take a.cbDataLen.toNat

/-- The call waits for its result and has a block. -/
abbrev AddArgs.waited (a : AddArgs) : Prop := a.entry.key.waited

/-- What `CMDGET` copies for an entry: the data in the client's block, or behind the entry if
nobody waits. -/
def CommandListEntry.command (m : Mem) (e : CommandListEntry) : Command :=
  ⟨e.key, if e.parmPacket.waited then
      (m e.parmPacket.cmdBlockID).take e.parmPacket.cbCmdDataLen.toNat
    else e.data⟩

theorem CommandListEntry.command_congr {m m' : Mem} {e : CommandListEntry}
    (h : e.key.waited → m' e.parmPacket.cmdBlockID = m e.parmPacket.cmdBlockID) :
    e.command m' = e.command m := by
  by_cases hw : e.key.waited
  · simp only [command, h hw]
  · simp only [command, Sys.not_waited_iff.2 hw, Bool.false_eq_true, ↓reduceIte]

theorem AddArgs.waited_iff {a : AddArgs} : a.waited ↔ a.waitflag ≠ 0 ∧ a.pData ≠ 0 := by
  have : a.entry.parmPacket.cmdBlockID = if a.waitflag ≠ 0 then a.pData else 0 := rfl
  rw [AddArgs.waited, CommandKey.waited, CommandListEntry.key_cmdBlockID, this]
  split_ifs with h
  · exact ⟨fun hp => ⟨h, hp⟩, And.right⟩
  · exact ⟨fun hp => absurd rfl hp, fun hp => absurd hp.1 h⟩

theorem AddArgs.cmdBlockID_entry {a : AddArgs} (h : a.waited) :
    a.entry.parmPacket.cmdBlockID = a.pData := by
  have hw := AddArgs.waited_iff.1 h
  simp only [entry, hw.1, ne_eq, not_false_eq_true, ↓reduceIte]

/-- The entry holds the data of the call: behind it or, if the block still has them, in the
block. -/
theorem AddArgs.command_entry {a : AddArgs} {m : Mem} (hm : a.waited → m a.pData = a.data)
    (hlen : a.waitflag ≠ 0 → a.pData = 0 → a.cbDataLen = 0) (h : ULONG) (t : ℕ) :
    (a.entry.queuedAs h t).command m = ⟨(a.entry.queuedAs h t).key, a.bytes⟩ := by
  rw [CommandListEntry.command, CommandListEntry.cmdBlockID_queuedAs]
  by_cases hw : a.waited
  · have hp : (a.entry.queuedAs h t).parmPacket.waited = true := Sys.waited_iff.2 hw
    rw [if_pos hp, a.cmdBlockID_entry hw, hm hw]
    rfl
  · have hp : ¬ (a.entry.queuedAs h t).parmPacket.waited = true := fun h' =>
      hw (Sys.waited_iff.1 h')
    have hdata : (a.entry.queuedAs h t).data = a.bytes := by
      change (if a.waitflag ≠ 0 then [] else a.data.take a.cbDataLen.toNat) = a.bytes
      split_ifs with hf
      · rw [bytes, hlen hf (by_contra fun hne => hw (AddArgs.waited_iff.2 ⟨hf, hne⟩))]
        rfl
      · rfl
    rw [if_neg hp, hdata]

namespace Sys

/-- The blocks of the clients whose commands are queued or fetched. -/
def inUse (s : Sys) : List ULONG :=
  ((s.keysWith []).filter fun k => k.waited).map (·.cmdBlockID)

/-- No close, and a call comes with a block that is not in use, neither by a queued or fetched
command nor by a client that is about to queue one. -/
def OwnBlock (s : Sys) : Act → Prop
  | .call _ a _ => a.pData ∉ s.inUse ∧
      (∀ j a', s.clients j = .filled a' → a'.waited → a'.pData ≠ a.pData) ∧
      (a.waitflag ≠ 0 → a.pData = 0 → a.cbDataLen = 0)
  | .closeBegin => False
  | .closeSweep => False
  | _ => True

/-- The commands that a step appends to the waiting list, with the data of the call. -/
def appendedBy (s : Sys) : Act → List Command
  | .append i =>
    match s.clients i with
    | .filled a => [⟨(a.entry.queuedAs (nextCmdhandle s.cmdhandle) s.queued).key, a.bytes⟩]
    | _ => []
  | _ => []

/-- The commands that a step hands to the daemon. -/
def deliveredBy (s : Sys) : Act → List Command
  | .getNext =>
    match s.daemon with
    | .popped pa pe =>
      if pa.cbMaxDataLen < pe.parmPacket.cbCmdDataLen then []
      else [⟨(pe.fetchedBy pa).key, (pe.command s.mem).bytes⟩]
    | _ => []
  | _ => []

/-- The commands on their way, as they would be delivered now. -/
def onTheWay (s : Sys) : List Command := s.pending.map (·.command s.mem)

/-- The invariant: nobody writes to a block while its data are still needed. -/
structure BlockInv (s : Sys) : Prop where
  /-- Queued and fetched commands have different blocks. -/
  nodup : s.inUse.Nodup
  /-- The block of a client that is about to queue a command holds the data of its call. -/
  filled : ∀ i a, s.clients i = .filled a → a.waited → s.mem a.pData = a.data ∧ a.pData ∉ s.inUse
  /-- Clients that are about to queue a command have different blocks. -/
  filledApart : ∀ i j a a', i ≠ j → s.clients i = .filled a → s.clients j = .filled a' →
    a.waited → a'.waited → a.pData ≠ a'.pData
  /-- A client that waits without a block has no data. -/
  sized : ∀ i a, s.clients i = .filled a → a.waitflag ≠ 0 → a.pData = 0 → a.cbDataLen = 0

/-! ### Blocks in use -/

theorem mem_inUse {s : Sys} {b : ULONG} :
    b ∈ s.inUse ↔ ∃ k ∈ s.keysWith [], k.waited ∧ k.cmdBlockID = b := by
  simp only [inUse, List.mem_map, List.mem_filter, decide_eq_true_eq, and_assoc]

theorem mem_inUse_of_pending {s : Sys} {e : CommandListEntry} (he : e ∈ s.pending)
    (hw : e.key.waited) : e.parmPacket.cmdBlockID ∈ s.inUse :=
  mem_inUse.2 ⟨e.key, List.mem_map_of_mem (List.mem_append_left _ he), hw, rfl⟩

theorem inUse_subperm {s s' : Sys} {a : Act} (hst : Step s a s') (ha : ∀ i, a ≠ .append i)
    (hb : a ≠ .closeBegin) (hs : a ≠ .closeSweep) : s'.inUse.Subperm s.inUse := by
  have hsub : (s'.keysWith []).Sublist (s'.keysWith ([] ++ s.postedBy a)) :=
    ((List.nil_sublist _).append_left _ |>.append_left _).map _
  obtain ⟨l, hperm, hl⟩ := hsub.subperm.trans (keysWith_posted hst ha hb hs [])
  exact ⟨_, (hperm.filter _).map _, (hl.filter _).map _⟩

theorem inUse_append (s : Sys) (i : ℕ) (a : AddArgs) :
    (s.append i a.entry).inUse.Perm (if a.waited then a.pData :: s.inUse else s.inUse) := by
  refine (((keysWith_append s i a.entry []).filter _).map _).trans (.of_eq ?_)
  split_ifs with hw
  · have hw' : (a.entry.queuedAs (nextCmdhandle s.cmdhandle) s.queued).key.waited := hw
    simp only [List.filter_cons, hw', decide_true, ↓reduceIte, List.map_cons]
    exact congrArg (· :: s.inUse) (a.cmdBlockID_entry hw)
  · have hw' : ¬ (a.entry.queuedAs (nextCmdhandle s.cmdhandle) s.queued).key.waited := hw
    simp only [List.filter_cons, hw', decide_false, Bool.false_eq_true, ↓reduceIte]
    rfl

/-- The block of a packet that is posted is not one of a pending command. -/
theorem cmdBlockID_ne_of_fetched {s : Sys} (h : s.inUse.Nodup) {k : ℕ} {e : CommandListEntry}
    (hk : s.fetched[k]? = some e) (hw : e.key.waited) :
    ∀ e' ∈ s.pending, e'.key.waited → e'.parmPacket.cmdBlockID ≠ e.parmPacket.cmdBlockID := by
  intro e' he' hw' heq
  have hpair := List.pairwise_map.1 (List.pairwise_filter.1 (List.pairwise_map.1 h))
  have hmem : e ∈ s.fetched ++ [] := List.mem_append_left _ (List.mem_of_getElem? hk)
  have hcross := (List.pairwise_append.1 hpair).2.2 e' he' e hmem
  exact hcross (decide_eq_true hw') (decide_eq_true hw) heq

/-! ### One step -/

theorem onTheWay_congr {s s' : Sys} (hp : s'.pending = s.pending)
    (hm : ∀ e ∈ s.pending, e.key.waited →
      s'.mem e.parmPacket.cmdBlockID = s.mem e.parmPacket.cmdBlockID) :
    s'.onTheWay = s.onTheWay := by
  rw [onTheWay, hp, onTheWay]
  exact List.map_congr_left fun e he => CommandListEntry.command_congr (hm e he)

/-- Writing to a block that no queued command has. -/
theorem update_of_notMem_inUse {s : Sys} {b : ULONG} {d : List UInt8} (hb : b ∉ s.inUse) :
    ∀ e ∈ s.pending, e.key.waited →
      Function.update s.mem b d e.parmPacket.cmdBlockID = s.mem e.parmPacket.cmdBlockID :=
  fun _ he hw => Function.update_of_ne (ne_of_mem_of_not_mem (mem_inUse_of_pending he hw) hb) ..

/-- At every step, what is on its way and what is appended is what is delivered and what is on
its way then. -/
theorem onTheWay_step {s s' : Sys} {a : Act} (h : BlockInv s) (hg : OwnBlock s a)
    (hst : Step s a s') : s.onTheWay ++ s.appendedBy a = s.deliveredBy a ++ s'.onTheWay := by
  have same : s'.onTheWay = s.onTheWay → s.appendedBy a = [] → s.deliveredBy a = [] →
      s.onTheWay ++ s.appendedBy a = s.deliveredBy a ++ s'.onTheWay := by
    intro h₁ h₂ h₃
    rw [h₁, h₂, h₃, List.append_nil, List.nil_append]
  cases hst with
  | callNoDaemon => exact same (onTheWay_congr rfl (update_of_notMem_inUse hg.1)) rfl rfl
  | callNoMemory => exact same (onTheWay_congr rfl (update_of_notMem_inUse hg.1)) rfl rfl
  | callFilled => exact same (onTheWay_congr rfl (update_of_notMem_inUse hg.1)) rfl rfl
  | @append i args hc =>
    -- the block still has the data of the call, so the entry would be delivered with them
    have hcmd := args.command_entry (fun hw => (h.filled i args hc hw).1) (h.sized i args hc)
      (nextCmdhandle s.cmdhandle) s.queued
    simp only [appendedBy, hc, deliveredBy, List.nil_append]
    rw [← hcmd]
    simp [onTheWay, pending, append, setClient]
  | runOn => exact same (onTheWay_congr (pending_runOn ..) fun _ _ _ => rfl) rfl rfl
  | pollNone => exact same rfl rfl rfl
  | pollTake => exact same rfl rfl rfl
  | @cmdGet cur pa hd =>
    have hd' : s.daemon.inHand = [] := by rcases hd with hd | hd <;> rw [hd] <;> rfl
    have hp : pending { s with daemon := .test pa } = s.pending := pending_setPc rfl hd'
    exact same (onTheWay_congr hp fun _ _ _ => rfl) rfl rfl
  | pop hd hw =>
    exact same (onTheWay_congr (pending_pop hd hw) fun _ _ _ => rfl) rfl (by simp [deliveredBy, hd])
  | pushBack hd hl =>
    refine same (onTheWay_congr (pending_pushBack hd) fun _ _ _ => rfl) rfl ?_
    simp only [deliveredBy, hd, hl, ↓reduceIte]
  | @deliver pa pe hd hl =>
    simp only [appendedBy, deliveredBy, hd, hl, ↓reduceIte]
    simp [onTheWay, pending, hd, DaemonPc.inHand, CommandListEntry.command]
  | signal hd | resched hd =>
    exact same (onTheWay_congr (pending_setPc rfl (by rw [hd]; rfl)) fun _ _ _ => rfl) rfl rfl
  | @post k e rc data hd hk hw =>
    -- the result goes to the block of a fetched command, which no pending command has
    have hne := cmdBlockID_ne_of_fetched h.nodup hk (waited_iff.1 hw)
    refine same (onTheWay_congr rfl ?_) rfl rfl
    intro e' he' hw'
    exact Function.update_of_ne (hne e' he' hw') ..
  | postNothing => exact same (onTheWay_congr rfl fun _ _ _ => rfl) rfl rfl
  | closeBegin => exact hg.elim
  | closeSweep => exact hg.elim
  | testEmpty hd | testFull hd | register hd | block hd | woken hd | popNone hd =>
    exact same (onTheWay_congr (pending_setPc rfl (by rw [hd]; rfl)) fun _ _ _ => rfl) rfl
      (by simp [deliveredBy, hd])

/-! ### The blocks keep their data -/

theorem mem_inUse_of_fetched {s : Sys} {k : ℕ} {e : CommandListEntry}
    (hk : s.fetched[k]? = some e) (hw : e.key.waited) : e.parmPacket.cmdBlockID ∈ s.inUse := by
  refine mem_inUse.2 ⟨e.key, List.mem_map_of_mem ?_, hw, rfl⟩
  exact List.mem_append_right _ (List.mem_append_left _ (List.mem_of_getElem? hk))

/-- Only a call with the block, and a result for a command with the block, write to it. -/
theorem mem_of_step {s s' : Sys} {a : Act} (hst : Step s a s') {b : ULONG} (hb : b ∉ s.inUse)
    (hc : ∀ i args alloc, a = .call i args alloc → b ≠ args.pData) : s'.mem b = s.mem b := by
  cases hst with
  | callNoDaemon => exact Function.update_of_ne (hc _ _ _ rfl) ..
  | callNoMemory => exact Function.update_of_ne (hc _ _ _ rfl) ..
  | callFilled => exact Function.update_of_ne (hc _ _ _ rfl) ..
  | post hd hk hw =>
    refine Function.update_of_ne ?_ ..
    exact (ne_of_mem_of_not_mem (mem_inUse_of_fetched hk (waited_iff.1 hw)) hb).symm
  | _ => rfl

theorem filled_setClient {s : Sys} {i j : ℕ} {c : Client} {args : AddArgs}
    (hc : c ≠ .filled args) (h : (s.setClient i c).clients j = .filled args) :
    j ≠ i ∧ s.clients j = .filled args := by
  have hji : j ≠ i := by
    rintro rfl
    exact hc ((clients_setClient_self ..).symm.trans h)
  exact ⟨hji, (clients_setClient_ne _ _ hji).symm.trans h⟩

/-- A client is about to queue a command because it was before, or because it calls. -/
theorem filled_of_step {s s' : Sys} {a : Act} (hst : Step s a s') {j : ℕ} {args : AddArgs}
    (h : s'.clients j = .filled args) :
    (s.clients j = .filled args ∧ a ≠ .append j) ∨
      ∃ alloc, a = .call j args alloc ∧ s'.mem args.pData = args.data := by
  cases hst with
  | callNoDaemon => exact .inl ⟨(filled_setClient (by simp) h).2, nofun⟩
  | callNoMemory => exact .inl ⟨(filled_setClient (by simp) h).2, nofun⟩
  | @callFilled i args' r hc =>
    by_cases hji : j = i
    · subst hji
      obtain rfl : args' = args := Client.filled.inj ((clients_setClient_self ..).symm.trans h)
      exact .inr ⟨_, rfl, Function.update_self ..⟩
    · exact .inl ⟨(clients_setClient_ne _ _ hji).symm.trans h, nofun⟩
  | append hc =>
    obtain ⟨hji, h'⟩ := @filled_setClient s _ j _ _ (by simp) h
    exact .inl ⟨h', fun heq => hji (Act.append.inj heq).symm⟩
  | runOn hc => exact .inl ⟨(@filled_setClient s _ j _ _ (by split_ifs <;> simp) h).2, nofun⟩
  | pollTake hc => exact .inl ⟨(@filled_setClient s _ j _ _ (by simp) h).2, nofun⟩
  | _ => exact .inl ⟨h, nofun⟩

theorem nodup_inUse_step {s s' : Sys} {a : Act} (h : BlockInv s) (hst : Step s a s')
    (hb : a ≠ .closeBegin) (hs : a ≠ .closeSweep) : s'.inUse.Nodup := by
  by_cases ha : ∃ i, a = .append i
  · obtain ⟨i, rfl⟩ := ha
    cases hst with
    | @append _ args hc =>
      rw [(inUse_append s i args).nodup_iff]
      split_ifs with hw
      · exact List.nodup_cons.2 ⟨(h.filled i args hc hw).2, h.nodup⟩
      · exact h.nodup
  · obtain ⟨l, hperm, hl⟩ := inUse_subperm hst (fun i hi => ha ⟨i, hi⟩) hb hs
    exact hperm.nodup_iff.1 (h.nodup.sublist hl)

/-- What becomes a block in use was the block of the client that appends. -/
theorem notMem_inUse_step {s s' : Sys} {a : Act} (hst : Step s a s') (hb : a ≠ .closeBegin)
    (hs : a ≠ .closeSweep) {b : ULONG} (hmem : b ∉ s.inUse)
    (ha : ∀ i args, a = .append i → s.clients i = .filled args → args.waited → b ≠ args.pData) :
    b ∉ s'.inUse := by
  by_cases ha' : ∃ i, a = .append i
  · obtain ⟨i, rfl⟩ := ha'
    cases hst with
    | @append _ args hc =>
      rw [(inUse_append s i args).mem_iff]
      split_ifs with hw
      · exact List.not_mem_cons_of_ne_of_not_mem (ha i args rfl hc hw) hmem
      · exact hmem
  · exact fun h => hmem ((inUse_subperm hst (fun i hi => ha' ⟨i, hi⟩) hb hs).subset h)

theorem blockInv_step {s s' : Sys} {a : Act} (h : BlockInv s) (hg : OwnBlock s a)
    (hst : Step s a s') : BlockInv s' := by
  have hb : a ≠ .closeBegin := by rintro rfl; exact hg
  have hs : a ≠ .closeSweep := by rintro rfl; exact hg
  refine ⟨nodup_inUse_step h hst hb hs, ?_, ?_, ?_⟩
  · intro j args hj hw
    rcases filled_of_step hst hj with ⟨hj', ha⟩ | ⟨alloc, rfl, hm⟩
    · -- the client has called before, and nobody has written to its block since
      obtain ⟨hm, hmem⟩ := h.filled j args hj' hw
      refine ⟨(mem_of_step hst hmem ?_).trans hm, notMem_inUse_step hst hb hs hmem ?_⟩
      · intro i args' alloc heq
        subst heq
        exact hg.2.1 j args hj' hw
      · intro i args' heq hi hw'
        have hij : j ≠ i := by rintro rfl; exact ha heq
        exact h.filledApart j i args args' hij hj' hi hw hw'
    · exact ⟨hm, notMem_inUse_step hst hb hs hg.1 nofun⟩
  · intro i j args args' hij hi hj hw hw'
    rcases filled_of_step hst hi with ⟨hi', -⟩ | ⟨alloc, rfl, -⟩
    · rcases filled_of_step hst hj with ⟨hj', -⟩ | ⟨alloc, rfl, -⟩
      · exact h.filledApart i j args args' hij hi' hj' hw hw'
      · exact hg.2.1 i args hi' hw
    · rcases filled_of_step hst hj with ⟨hj', -⟩ | ⟨alloc', heq, -⟩
      · exact (hg.2.1 j args' hj' hw').symm
      · exact absurd (Act.call.inj heq).1 hij
  · intro j args hj
    rcases filled_of_step hst hj with ⟨hj', -⟩ | ⟨alloc, rfl, -⟩
    · exact h.sized j args hj'
    · exact hg.2.2

theorem blockInv_init : BlockInv machine.init := ⟨.nil, nofun, nofun, nofun⟩

/-! ### First in, first out -/

/-- The commands appended so far have the numbers `0`, `1`, `2`, ... -/
def Numbered (l : List Command) (s : Sys) : Prop :=
  l.map (fun c => c.key.ticket) = List.range s.queued

theorem numbered_step {l : List Command} {s s' : Sys} {a : Act} (h : Numbered l s)
    (hst : Step s a s') : Numbered (l ++ s.appendedBy a) s' := by
  by_cases ha : ∃ i, a = .append i
  · obtain ⟨i, rfl⟩ := ha
    cases hst with
    | append hc =>
      rw [Numbered, List.map_append, h]
      simp only [appendedBy, hc]
      exact List.range_succ.symm
  · have hnone : s.appendedBy a = [] := by
      cases a with
      | append i => exact absurd ⟨i, rfl⟩ ha
      | _ => rfl
    rw [Numbered, hnone, List.append_nil, h, (queued_of_step hst fun i hi => ha ⟨i, hi⟩).1]

theorem numbered_appended {as : List Act} {s : Sys} (h : machine.Run OwnBlock machine.init as s) :
    Numbered (machine.collect appendedBy machine.init as) s := by
  have h₀ : Numbered [] machine.init := rfl
  have := h.history (fun _ _ _ _ hl _ hst => numbered_step hl (step_cases hst)) h₀
  rwa [List.nil_append] at this

/-- **First in, first out.**  What was handed to the daemon is a prefix of what was appended,
every command once, with the packet and the data of its call. -/
theorem delivered_in_order {as : List Act} {s : Sys} (h : machine.Run OwnBlock machine.init as s) :
    machine.collect deliveredBy machine.init as <+: machine.collect appendedBy machine.init as ∧
      ((machine.collect deliveredBy machine.init as).map fun c => c.key.ticket).Nodup := by
  have hcons : machine.init.onTheWay ++ machine.collect appendedBy machine.init as =
      machine.collect deliveredBy machine.init as ++ s.onTheWay :=
    h.conserve (fun _ _ _ hI hg hst =>
      ⟨blockInv_step hI hg (step_cases hst), onTheWay_step hI hg (step_cases hst)⟩) blockInv_init
  have hpre : machine.collect deliveredBy machine.init as <+:
      machine.collect appendedBy machine.init as := ⟨s.onTheWay, hcons.symm⟩
  refine ⟨hpre, ?_⟩
  have hnodup : ((machine.collect appendedBy machine.init as).map fun c => c.key.ticket).Nodup := by
    rw [numbered_appended h]
    exact List.nodup_range
  exact hnodup.sublist (hpre.sublist.map _)

/-- Client `0` queues a command without waiting.  The daemon asks with a buffer of no length,
so the command goes back to the head of the list; meanwhile client `1` queues one with a block
at address `128` and waits.  Then the daemon fetches both. -/
def pushedBack : List Act :=
  [.cmdGet firstPid ⟨0, 0⟩, .call 0 sampleArgs true, .append 0, .runOn 0, .getNext, .getNext,
    .call 1 { sampleWait with pData := 128 } true, .append 1, .getNext, .runOn 1,
    sampleGet, .getNext, .getNext, .getNext, sampleGet, .getNext, .getNext, .getNext]

theorem run_pushedBack : ∃ s, machine.Run OwnBlock machine.init pushedBack s := by
  refine ⟨_, .cons trivial rfl <| .cons ⟨by decide, nofun, by decide⟩ rfl <| .cons trivial rfl <|
    .cons trivial rfl <| .cons trivial rfl <| .cons trivial rfl <|
    .cons ⟨by decide, fun j a' hj => ?_, by decide⟩ rfl <| .cons trivial rfl <|
    .cons trivial rfl <| .cons trivial rfl <| .cons trivial rfl <| .cons trivial rfl <|
    .cons trivial rfl <| .cons trivial rfl <| .cons trivial rfl <| .cons trivial rfl <|
    .cons trivial rfl <| .cons trivial rfl <| .nil _⟩
  -- client `0` is out of its call, and no other client has called yet
  change Function.update (Function.update (Function.update (fun _ => Client.out none) 0 _) 0 _) 0 _
    j = _ at hj
  by_cases h0 : j = 0
  · subst h0; cases hj
  · simp only [Function.update_of_ne h0, reduceCtorEq] at hj

/-- `delivered_in_order` on this run: both commands are delivered, in the order of the list. -/
theorem delivered_in_order_pushedBack :
    (machine.collect deliveredBy machine.init pushedBack).map (fun c => c.key.hcmd) = [1, 2] ∧
    machine.collect deliveredBy machine.init pushedBack <+:
      machine.collect appendedBy machine.init pushedBack := by
  obtain ⟨s, hs⟩ := run_pushedBack
  exact ⟨by decide, (delivered_in_order hs).1⟩

end Sys

end LxApi32
