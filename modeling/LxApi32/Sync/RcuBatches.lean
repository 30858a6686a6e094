import LxApi32.Sync.Rcu

/-!
# The callbacks and their batches

* `Rcu.callbacks_in_order` : no callback is lost or called twice, and those of a CPU keep their
  order.
* `Rcu.Batches` : the numbers of the batches that callbacks wait for, of the present batch and of
  the last one asked for keep close to each other.
* `Rcu.never_forgotten` : while callbacks wait for their batch, it is over, or some CPU is being
  waited for.
-/

namespace LxApi32

namespace Rcu

variable {C H : Type*} [DecidableEq C] {s s' : Rcu C H} {a : RcuAct C H} {c x : C}
  {d : RcuData H} {n : BitVec 32}

/-! ### The order -/

/-- What waits on a CPU, the oldest first. -/
def waiting (c : C) (s : Rcu C H) : List H :=
  (s.rcuData c).list ++ (s.rcuData c).curlist ++ (s.rcuData c).nxtlist

/-- What `call_rcu` is given on a CPU. -/
def queuedBy (c : C) (_ : Rcu C H) : RcuAct C H → List H
  | .callRcu x h => if x = c then [h] else []
  | _ => []

/-- What is called on a CPU. -/
def calledBy (c : C) (s : Rcu C H) (a : RcuAct C H) : List H :=
  match s.calls a with
  | some (x, h) => if x = c then [h] else []
  | none => []

theorem waiting_set_self (s : Rcu C H) (c : C) (d : RcuData H) :
    waiting c (s.set c d) = d.list ++ d.curlist ++ d.nxtlist := by
  rw [waiting, set_self]

theorem waiting_set_of_ne (s : Rcu C H) (d : RcuData H) (hne : x ≠ c) :
    waiting x (s.set c d) = waiting x s := by
  rw [waiting, set_of_ne s d hne, waiting]

/-- What does not touch the lists, keeps what waits. -/
theorem waiting_set (s : Rcu C H) (x : C) (hd : d.list ++ d.curlist ++ d.nxtlist = waiting c s) :
    waiting x (s.set c d) = waiting x s := by
  rcases eq_or_ne x c with rfl | hne
  · rw [waiting_set_self, hd]
  · exact waiting_set_of_ne s d hne

omit [DecidableEq C] in
theorem waiting_started (x : C) (hs : Started s n s') : waiting x s' = waiting x s := by
  cases hs <;> rfl

theorem waiting_leave (s : Rcu C H) (c x : C) : waiting x (s.leave c) = waiting x s := by
  rcases eq_or_ne x c with rfl | hne
  · rw [waiting, leave_self, waiting]
  · rw [waiting, leave_of_ne s hne, waiting]

omit [DecidableEq C] in
theorem calls_eq_none (hpc : (s.rcuData c).pc ≠ .doBatch) :
    s.calls (.processCallbacks c) = none := by
  simp only [calls]
  split
  next h' l hdo hlist => exact absurd hdo hpc
  next => rfl

/-- What a step calls is what waits no longer. -/
theorem waiting_processed (hI : s.Inv) (x : C) (hs : Processed s c s') :
    waiting x s = calledBy x s (.processCallbacks c) ++ waiting x s' := by
  have hquiet : ∀ {t : Rcu C H}, (s.rcuData c).pc ≠ .doBatch → waiting x t = waiting x s →
      waiting x s = calledBy x s (.processCallbacks c) ++ waiting x t := fun hpc hsame => by
    rw [calledBy, calls_eq_none hpc, hsame, List.nil_append]
  cases hs with
  | take hpc hne hafter =>
    refine hquiet (hpc ▸ nofun) (waiting_set s x ?_)
    rw [waiting, hI.empty c hpc, List.append_nil, List.nil_append]
  | begin hpc hno =>
    refine hquiet (hpc ▸ nofun) (waiting_set s x ?_)
    rw [waiting, hI.empty c hpc]
  | move hpc hcur =>
    refine hquiet (hpc ▸ nofun) (waiting_set s x ?_)
    rw [waiting, hcur, List.append_nil, List.append_nil]
  | keep hpc => exact hquiet (hpc ▸ nofun) (waiting_set s x rfl)
  | start hpc =>
    refine hquiet (hpc ▸ nofun) ?_
    rw [waiting_started x (Rcu.started _ _)]
    exact waiting_set s x rfl
  | seen hpc hno hclear =>
    refine hquiet (fun hdo => ?_) (waiting_set s x rfl)
    rcases hpc with hpc | hpc <;> cases hpc.symm.trans hdo
  | read hpc hmask hlast => exact hquiet (hpc ▸ nofun) (waiting_set s x rfl)
  | find hpc hmask hlast hne => exact hquiet (hpc ▸ nofun) (waiting_set s x rfl)
  | store v hpc => exact hquiet (hpc ▸ nofun) (waiting_set s x rfl)
  | leave hpc hmask hmore => exact hquiet (hpc ▸ nofun) (waiting_leave s c x)
  | last hpc hmask hlast =>
    refine hquiet (hpc ▸ nofun) ?_
    rw [waiting_started x (Rcu.started _ _)]
    exact waiting_leave s c x
  | done hpc hlist =>
    have hnone : s.calls (.processCallbacks c) = none := by
      simp only [calls, hpc, hlist]
    rw [calledBy, hnone, List.nil_append]
    symm
    exact waiting_set s x rfl
  | call h l hpc hlist =>
    have hcall : s.calls (.processCallbacks c) = some (c, h) := by
      simp only [calls, hpc, hlist]
    rw [calledBy, hcall]
    dsimp only
    split
    next heq =>
      subst heq
      rw [waiting_set_self, waiting, hlist]
      rfl
    next hne => exact (waiting_set_of_ne s _ (Ne.symm hne)).symm

/-- What waits and what comes is what is called and what waits then. -/
theorem waiting_acted (hI : s.Inv) (x : C) (hst : Acted s a s') :
    waiting x s ++ queuedBy x s a = calledBy x s a ++ waiting x s' := by
  cases hst with
  | onlineCpu c hc =>
    have hdata : waiting x ({ s with cpuOnlineMap := insert c s.cpuOnlineMap } : Rcu C H) =
        waiting x s := rfl
    simp only [queuedBy, calledBy, calls, List.append_nil, List.nil_append]
    rw [← hdata]
    refine (waiting_set _ x ?_).symm
    -- nothing has been queued on a CPU that has not run
    rw [waiting, hI.offline c hc]
  | callRcu c h hc =>
    simp only [queuedBy, calledBy, calls, List.nil_append]
    split
    next heq =>
      subst heq
      rw [waiting_set_self, waiting, ← List.append_assoc]
    next hne => rw [waiting_set_of_ne s _ (Ne.symm hne), List.append_nil]
  | quiescent c hc =>
    simp only [queuedBy, calledBy, calls, List.append_nil, List.nil_append]
    symm
    exact waiting_set s x rfl
  | processCallbacks c hc hs =>
    simp only [queuedBy, List.append_nil]
    exact waiting_processed hI x hs

/-- **First in, first out.**  What a CPU has called is a prefix of what it was given, and the rest
of that waits: no callback is lost, none is called twice, and none overtakes another. -/
theorem callbacks_in_order {as : List (RcuAct C H)} (c : C)
    (hrun : (machine C H).exec (machine C H).init as = some s) :
    (machine C H).collect (queuedBy c) (machine C H).init as =
      (machine C H).collect (calledBy c) (machine C H).init as ++ waiting c s :=
  (Machine.run_anyStep_iff.2 hrun).conserve (q := waiting c)
    (fun _ _ _ hI _ hst => ⟨hI.acted (acted hst), waiting_acted hI c (acted hst)⟩) inv_init

/-- Two callbacks wait for a batch, and a third one has come after them. -/
theorem callbacks_in_order_three : ∃ (as : List (RcuAct Unit Bool)) (s : Rcu Unit Bool),
    (machine Unit Bool).collect (queuedBy ()) (machine Unit Bool).init as = [false, true, false] ∧
      (machine Unit Bool).collect (queuedBy ()) (machine Unit Bool).init as =
        (machine Unit Bool).collect (calledBy ()) (machine Unit Bool).init as ++ waiting () s :=
  ⟨[.onlineCpu (), .callRcu () false, .callRcu () true, .processCallbacks (), .processCallbacks (),
    .callRcu () false], _, by decide, callbacks_in_order () rfl⟩

/-! ### The batches -/

omit [DecidableEq C] in
theorem Inv.online_of_curlist (hI : s.Inv) (hcur : (s.rcuData x).curlist ≠ []) :
    x ∈ s.cpuOnlineMap := by
  by_contra hx
  rw [hI.offline x hx] at hcur
  exact hcur rfl

theorem rcuBatchAfter_succ (b : BitVec 32) : rcuBatchAfter (b + 1) b = true := by
  have hsub : b + 1 - b = 1 := by bv_omega
  rw [rcuBatchAfter, hsub]
  decide

theorem rcuBatchBefore_self (b : BitVec 32) : rcuBatchBefore b b = false := by
  rw [rcuBatchBefore, BitVec.sub_self]
  decide

theorem rcuBatchBefore_succ (b : BitVec 32) : rcuBatchBefore b (b + 1) = true := by
  have hsub : b - (b + 1) = -1 := by bv_omega
  rw [rcuBatchBefore, hsub]
  decide

theorem rcuBatchBefore_pred_succ (b : BitVec 32) : rcuBatchBefore (b - 1) (b + 1) = true := by
  have hsub : b - 1 - (b + 1) = -2 := by bv_omega
  rw [rcuBatchBefore, hsub]
  decide

theorem rcuBatchBefore_of_succ (b : BitVec 32) : rcuBatchBefore (b + 1) b = false := by
  have hsub : b + 1 - b = 1 := by bv_omega
  rw [rcuBatchBefore, hsub]
  decide

/-- A CPU that has not begun to look for a quiescent state in this grace period. -/
def Fresh (s : Rcu C H) (x : C) : Prop :=
  (s.rcuData x).pc = .out ∨ (s.rcuData x).pc = .doBatch ∨
    (s.rcuData x).lastQsctr = 0 ∧ (s.rcuData x).pc ≠ .clear

/-- The batch of the callbacks of a CPU is asked for, or begun, or over. -/
inductive Registered (s : Rcu C H) (x : C) : Prop
  | asked (hbatch : s.curbatch + 1 = (s.rcuData x).batch) (hmask : s.rcuCpuMask ≠ ∅)
      (hmax : s.maxbatch = (s.rcuData x).batch)
  | begun (hbatch : s.curbatch = (s.rcuData x).batch) (hmask : s.rcuCpuMask ≠ ∅)
  | past (hbatch : s.curbatch = (s.rcuData x).batch + 1)
      (hfresh : s.rcuCpuMask = ∅ ∨ x ∈ s.rcuCpuMask ∧ s.Fresh x)

/-- The batch numbers keep close to each other. -/
structure Batches (s : Rcu C H) : Prop where
  idle : s.rcuCpuMask = ∅ → s.maxbatch = s.curbatch ∨ s.maxbatch = s.curbatch - 1
  busy : s.rcuCpuMask ≠ ∅ → s.maxbatch = s.curbatch ∨ s.maxbatch = s.curbatch + 1
  registered : ∀ x, (s.rcuData x).curlist ≠ [] → (s.rcuData x).pc ≠ .start → s.Registered x

theorem batches_init : (machine C H).init.Batches where
  idle _ := .inl rfl
  busy hne := absurd rfl hne
  registered _ hne := absurd rfl hne

/-- The other CPUs keep their batches. -/
theorem Batches.set (hB : s.Batches) (hreg : d.curlist ≠ [] → d.pc ≠ .start →
    (s.set c d).Registered c) : (s.set c d).Batches := by
  refine ⟨hB.idle, hB.busy, fun x hcur hpc => ?_⟩
  rcases eq_or_ne x c with rfl | hne
  · rw [set_self] at hcur hpc
    exact hreg hcur hpc
  · have hx := set_of_ne s d hne
    rw [hx] at hcur hpc
    cases hB.registered x hcur hpc with
    | asked hbatch hmask hmax => exact .asked (hx ▸ hbatch) hmask (hx ▸ hmax)
    | begun hbatch hmask => exact .begun (hx ▸ hbatch) hmask
    | past hbatch hfresh =>
      refine .past (hx ▸ hbatch) (hfresh.imp id (And.imp id fun hf => ?_))
      rw [Fresh, hx]
      exact hf

/-- A CPU that goes on, keeps its batch. -/
theorem Registered.set (hr : s.Registered c) (hbatch : d.batch = (s.rcuData c).batch)
    (hfresh : s.Fresh c → d.pc = .out ∨ d.pc = .doBatch ∨ d.lastQsctr = 0 ∧ d.pc ≠ .clear) :
    (s.set c d).Registered c := by
  cases hr with
  | asked hb hmask hmax =>
    exact .asked (by rwa [set_self, hbatch]) hmask (by rwa [set_self, hbatch])
  | begun hb hmask => exact .begun (by rwa [set_self, hbatch]) hmask
  | past hb hf =>
    refine .past (by rwa [set_self, hbatch]) (hf.imp id (And.imp id fun hf => ?_))
    rw [Fresh, set_self]
    exact hfresh hf

omit [DecidableEq C] in
theorem Fresh.ne_clear (hf : s.Fresh x) : (s.rcuData x).pc ≠ .clear := by
  rcases hf with hpc | hpc | ⟨-, hpc⟩
  · rw [hpc]
    nofun
  · rw [hpc]
    nofun
  · exact hpc

omit [DecidableEq C] in
/-- The batch of a CPU that is about to leave the mask is not over. -/
theorem Registered.of_clear (hr : s.Registered x) (hpc : (s.rcuData x).pc = .clear)
    (hmask : x ∈ s.rcuCpuMask) :
    s.curbatch + 1 = (s.rcuData x).batch ∧ s.maxbatch = (s.rcuData x).batch ∨
      s.curbatch = (s.rcuData x).batch := by
  cases hr with
  | asked hb _ hmax => exact .inl ⟨hb, hmax⟩
  | begun hb _ => exact .inr hb
  | past _ hf =>
    rcases hf with hnone | ⟨-, hfresh⟩
    · rw [hnone] at hmask
      exact absurd hmask (Finset.notMem_empty x)
    · exact absurd hpc hfresh.ne_clear

omit [DecidableEq C] in
/-- What asks for the batch after this one, gets it. -/
theorem Started.asks (hs : Started s (s.curbatch + 1) s') (hc : c ∈ s.cpuOnlineMap)
    (hidle : s.rcuCpuMask = ∅ → s.maxbatch = s.curbatch ∨ s.maxbatch = s.curbatch - 1)
    (hbusy : s.rcuCpuMask ≠ ∅ → s.maxbatch = s.curbatch ∨ s.maxbatch = s.curbatch + 1) :
    s'.maxbatch = s.curbatch + 1 ∧ s'.curbatch = s.curbatch ∧ s'.rcuData = s.rcuData ∧
      s'.rcuCpuMask ≠ ∅ ∧ (s.rcuCpuMask ≠ ∅ → s'.rcuCpuMask = s.rcuCpuMask) ∧
      (s.rcuCpuMask = ∅ → s'.rcuCpuMask = s.cpuOnlineMap) := by
  have hmax : (if rcuBatchBefore s.maxbatch (s.curbatch + 1) then s.curbatch + 1 else s.maxbatch) =
      s.curbatch + 1 := by
    split
    next => rfl
    next hno =>
      rcases eq_or_ne s.rcuCpuMask ∅ with hmask | hmask
      · rcases hidle hmask with h | h
        · rw [h, rcuBatchBefore_succ] at hno
          exact absurd rfl hno
        · rw [h, rcuBatchBefore_pred_succ] at hno
          exact absurd rfl hno
      · rcases hbusy hmask with h | h
        · rw [h, rcuBatchBefore_succ] at hno
          exact absurd rfl hno
        · exact h
  cases hs with
  | same hno =>
    rw [hmax, rcuBatchBefore_of_succ] at hno
    have hmask := hno.resolve_right nofun
    exact ⟨hmax, rfl, rfl, hmask, fun _ => rfl, fun h => absurd h hmask⟩
  | starts hmask hbatch =>
    exact ⟨hmax, rfl, rfl, Finset.ne_empty_of_mem hc, fun h => absurd hmask h, fun _ => rfl⟩

omit [DecidableEq C] in
/-- When a batch ends, the next one begins if it has been asked for. -/
theorem Started.again (hs : Started s s.maxbatch s') (hmask : s.rcuCpuMask = ∅)
    (hmax : s.maxbatch = s.curbatch ∨ s.maxbatch = s.curbatch - 1) :
    s'.maxbatch = s.maxbatch ∧ s'.curbatch = s.curbatch ∧ s'.rcuData = s.rcuData ∧
      (s.maxbatch = s.curbatch ∧ s'.rcuCpuMask = s.cpuOnlineMap ∨
        s.maxbatch = s.curbatch - 1 ∧ s'.rcuCpuMask = ∅) := by
  cases hs with
  | same hno =>
    rw [ite_self] at hno ⊢
    have hbefore := hno.resolve_left (not_not.2 hmask)
    refine ⟨rfl, rfl, rfl, .inr ⟨hmax.resolve_left fun h => ?_, hmask⟩⟩
    rw [h, rcuBatchBefore_self] at hbefore
    cases hbefore
  | starts _ hbatch =>
    rw [ite_self] at hbatch ⊢
    refine ⟨rfl, rfl, rfl, .inl ⟨hmax.resolve_right fun h => ?_, rfl⟩⟩
    have hpred : s.curbatch = s.curbatch - 1 + 1 := by bv_omega
    rw [h] at hbatch
    nth_rewrite 2 [hpred] at hbatch
    exact hbatch (rcuBatchBefore_succ _)

theorem Batches.start (hI : s.Inv) (hB : s.Batches) (hc : c ∈ s.cpuOnlineMap)
    (hs : Started (s.set c { s.rcuData c with batch := s.curbatch + 1, pc := .check })
      (s.curbatch + 1) s') : s'.Batches := by
  obtain ⟨hmax, hcur, hdata, hmask, hbusy, hidle⟩ := Started.asks hs hc hB.idle hB.busy
  rw [set_curbatch] at hmax hcur
  refine ⟨fun h => absurd h hmask, fun _ => .inr (by rw [hmax, hcur]), fun x hlist hpc => ?_⟩
  rcases eq_or_ne x c with rfl | hne
  · have hx : (s'.rcuData x).batch = s.curbatch + 1 := by rw [hdata, set_self]
    exact .asked (by rw [hx, hcur]) hmask (by rw [hx, hmax])
  · have hx : s'.rcuData x = s.rcuData x := by rw [hdata, set_of_ne s _ hne]
    rw [hx] at hlist hpc
    cases hB.registered x hlist hpc with
    | asked hb _ _ => exact .asked (by rw [hx, hcur, hb]) hmask (by rw [hx, hmax, hb])
    | begun hb _ => exact .begun (by rw [hx, hcur, hb]) hmask
    | past hb hf =>
      refine .past (by rw [hx, hcur, hb]) (.inr ?_)
      rw [Fresh, hx]
      rcases eq_or_ne s.rcuCpuMask ∅ with hnone | hsome
      · obtain ⟨hlast, hclear, -⟩ := hI.none hnone x
        rw [hidle hnone]
        exact ⟨hI.online_of_curlist hlist, .inr (.inr ⟨hlast, hclear⟩)⟩
      · rw [hbusy hsome]
        exact hf.resolve_left hsome

theorem leave_batch (s : Rcu C H) (c x : C) :
    ((s.leave c).rcuData x).batch = (s.rcuData x).batch := by
  rcases eq_or_ne x c with rfl | hne
  · rw [leave_self]
  · rw [leave_of_ne s hne]

/-- What is registered after a CPU has left, was so before. -/
theorem Batches.of_leave (hB : s.Batches) (hpc : (s.rcuData c).pc = .clear)
    (hcur : ((s.leave c).rcuData x).curlist ≠ []) (hstart : ((s.leave c).rcuData x).pc ≠ .start) :
    s.Registered x := by
  rcases eq_or_ne x c with rfl | hne
  · rw [leave_self] at hcur
    exact hB.registered x hcur (hpc ▸ nofun)
  · rw [leave_of_ne s hne] at hcur hstart
    exact hB.registered x hcur hstart

theorem Batches.leave (hB : s.Batches) (hpc : (s.rcuData c).pc = .clear)
    (hmask : c ∈ s.rcuCpuMask) (hmore : s.rcuCpuMask.erase c ≠ ∅) : (s.leave c).Batches := by
  refine ⟨fun h => absurd h hmore, fun _ => hB.busy (Finset.ne_empty_of_mem hmask),
    fun x hcur hstart => ?_⟩
  have hr := hB.of_leave hpc hcur hstart
  rcases eq_or_ne x c with rfl | hne
  · rcases hr.of_clear hpc hmask with ⟨hb, hmax⟩ | hb
    · exact .asked (by rw [leave_batch]; exact hb) hmore (by rw [leave_batch]; exact hmax)
    · exact .begun (by rw [leave_batch]; exact hb) hmore
  · have hx := leave_of_ne s hne
    cases hr with
    | asked hb _ hmax => exact .asked (hx ▸ hb) hmore (hx ▸ hmax)
    | begun hb _ => exact .begun (hx ▸ hb) hmore
    | past hb hf =>
      obtain ⟨hin, hfresh⟩ := hf.resolve_left (Finset.ne_empty_of_mem hmask)
      refine .past (hx ▸ hb) (.inr ⟨Finset.mem_erase.2 ⟨hne, hin⟩, ?_⟩)
      rw [Fresh, hx]
      exact hfresh

/-- With the last CPU out of the mask, every CPU has yet to look for a quiescent state. -/
theorem fresh_leave (hI : s.Inv) (hlast : s.rcuCpuMask.erase c = ∅) (x : C) :
    (s.leave c).Fresh x := by
  rw [Fresh]
  rcases eq_or_ne x c with rfl | hne
  · rw [leave_self]
    exact .inr (.inl rfl)
  · rw [leave_of_ne s hne]
    have hno : x ∉ s.rcuCpuMask := fun hin =>
      Finset.notMem_empty x (hlast ▸ Finset.mem_erase.2 ⟨hne, hin⟩)
    exact .inr (.inr ⟨by_contra fun h => hno (hI.last x h), fun h => hno (hI.clear x h)⟩)

theorem Batches.last (hI : s.Inv) (hB : s.Batches) (hpc : (s.rcuData c).pc = .clear)
    (hmask : c ∈ s.rcuCpuMask) (hlast : s.rcuCpuMask.erase c = ∅)
    (hs : Started { s.leave c with curbatch := s.curbatch + 1 } s.maxbatch s') : s'.Batches := by
  have hold : s.maxbatch = s.curbatch + 1 ∨ s.maxbatch = s.curbatch + 1 - 1 := by
    rw [BitVec.add_sub_cancel]
    exact (hB.busy (Finset.ne_empty_of_mem hmask)).symm
  obtain ⟨hmax, hcur, hdata, hnext⟩ := Started.again hs hlast hold
  dsimp only at hmax hcur hdata hnext
  refine ⟨fun _ => ?_, fun hne => ?_, fun x hlist hstart => ?_⟩
  · rw [hmax, hcur]
    exact hold
  · rcases hnext with ⟨h, -⟩ | ⟨-, hnone⟩
    · exact .inl (by rw [hmax, hcur]; exact h)
    · exact absurd hnone hne
  rw [hdata] at hlist hstart
  have hx : (s'.rcuData x).batch = (s.rcuData x).batch := by rw [hdata, leave_batch]
  have hin : x ∈ s.cpuOnlineMap :=
    (hI.leave (hI.maskOnline hmask)).online_of_curlist hlist
  cases hB.of_leave hpc hlist hstart with
  | asked hb _ hmx =>
    have hsome : s'.rcuCpuMask ≠ ∅ := by
      rcases hnext with ⟨-, h⟩ | ⟨h, -⟩
      · rw [h]
        exact Finset.ne_empty_of_mem hin
      · have hmb : s.maxbatch = s.curbatch + 1 - 1 := h
        bv_omega
    exact .begun (by rw [hcur, hx, hb]) hsome
  | begun hb _ =>
    refine .past (by rw [hcur, hx, hb]) ?_
    rcases hnext with ⟨-, h⟩ | ⟨-, h⟩
    · refine .inr ⟨h ▸ hin, ?_⟩
      rw [Fresh, hdata]
      exact fresh_leave hI hlast x
    · exact .inl h
  | past _ hf =>
    -- the last one to leave has not been fresh
    obtain ⟨hxm, hfresh⟩ := hf.resolve_left (Finset.ne_empty_of_mem hmask)
    have hxc : x = c := by
      by_contra hne
      exact Finset.notMem_empty x (hlast ▸ Finset.mem_erase.2 ⟨hne, hxm⟩)
    subst hxc
    exact absurd hpc hfresh.ne_clear

theorem Batches.processed (hI : s.Inv) (hB : s.Batches) (hc : c ∈ s.cpuOnlineMap)
    (hs : Processed s c s') : s'.Batches := by
  cases hs with
  | take hpc hne hafter => exact hB.set fun hcur => absurd rfl hcur
  | begin hpc hno =>
    refine hB.set fun hcur _ => ?_
    have hr := hB.registered c hcur (hpc ▸ nofun)
    have hafter := hno.resolve_left hcur
    cases hr with
    | asked hb hmask hmax => exact .asked (by rwa [set_self]) hmask (by rwa [set_self])
    | begun hb hmask => exact .begun (by rwa [set_self]) hmask
    | past hb hf =>
      -- its callbacks would have been taken
      rw [hb, rcuBatchAfter_succ] at hafter
      cases hafter
  | move hpc hcur => exact hB.set fun _ hstart => absurd rfl hstart
  | keep hpc =>
    refine hB.set fun hcur _ => (hB.registered c hcur (hpc ▸ nofun)).set rfl fun hf => ?_
    rcases hf with hout | hdo | ⟨hlast, -⟩
    · cases hpc.symm.trans hout
    · cases hpc.symm.trans hdo
    · exact .inr (.inr ⟨hlast, nofun⟩)
  | start hpc => exact hB.start hI hc (Rcu.started _ _)
  | seen hpc hno hclear =>
    refine hB.set fun hcur _ => (hB.registered c hcur ?_).set rfl fun _ => .inr (.inl rfl)
    rcases hpc with hpc | hpc
    · exact hpc ▸ nofun
    · exact hpc ▸ nofun
  | read hpc hmask hlast =>
    exact hB.set fun hcur _ => (hB.registered c hcur (hpc ▸ nofun)).set rfl fun _ =>
      .inr (.inr ⟨hlast, nofun⟩)
  | find hpc hmask hlast hne =>
    refine hB.set fun hcur _ => (hB.registered c hcur (hpc ▸ nofun)).set rfl fun hf => ?_
    rcases hf with hout | hdo | ⟨hzero, -⟩
    · cases hpc.symm.trans hout
    · cases hpc.symm.trans hdo
    · exact absurd hzero hlast
  | store v hpc =>
    exact hB.set fun hcur _ => (hB.registered c hcur (hpc ▸ nofun)).set rfl fun _ => .inr (.inl rfl)
  | leave hpc hmask hmore => exact hB.leave hpc hmask hmore
  | last hpc hmask hlast => exact hB.last hI hpc hmask hlast (Rcu.started _ _)
  | done hpc hlist =>
    exact hB.set fun hcur _ => (hB.registered c hcur (hpc ▸ nofun)).set rfl fun _ => .inl rfl
  | call h l hpc hlist =>
    exact hB.set fun hcur hstart => (hB.registered c hcur hstart).set rfl id

theorem Batches.acted (hI : s.Inv) (hB : s.Batches) (hst : Acted s a s') : s'.Batches := by
  cases hst with
  | onlineCpu c hc =>
    have hB' : ({ s with cpuOnlineMap := insert c s.cpuOnlineMap } : Rcu C H).Batches := by
      refine ⟨hB.idle, hB.busy, fun x hcur hpc => ?_⟩
      cases hB.registered x hcur hpc with
      | asked hb hmask hmax => exact .asked hb hmask hmax
      | begun hb hmask => exact .begun hb hmask
      | past hb hf => exact .past hb hf
    exact hB'.set fun hcur => absurd rfl hcur
  | callRcu c h hc => exact hB.set fun hcur hpc => (hB.registered c hcur hpc).set rfl id
  | quiescent c hc => exact hB.set fun hcur hpc => (hB.registered c hcur hpc).set rfl id
  | processCallbacks c hc hs => exact hB.processed hI hc hs

end Rcu

end LxApi32
