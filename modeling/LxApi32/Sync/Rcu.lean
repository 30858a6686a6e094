import LxApi32.Lib.Machine
import Mathlib.Data.BitVec
import Mathlib.Data.Finset.SDiff
import Mathlib.Logic.Function.Basic

/-!
# Read-copy update

`call_rcu` puts a callback into a list of its CPU.  The tasklet of the CPU gives the callbacks that
have come in a batch number, and calls them once `curbatch` has gone past it.  That goes on by one
whenever each CPU in `rcu_cpu_mask` has been found, by its own tasklet, to have gone through a
quiescent state.  A CPU has no lock around what it reads of its own data, so that interrupts and the
tasklets of other CPUs come in between.

* `Rcu.Processed`, `Rcu.Acted` : all that a step can do.
* `Rcu.inv_of_exec` : what a CPU has seen of its counter, or is about to do with it, is of a grace
  period in which it is being waited for.
-/

namespace LxApi32

/-- Where the tasklet of a CPU is. -/
inductive RcuPc
  /-- Not in `rcu_process_callbacks`. -/
  | out
  /-- At `local_irq_disable`. -/
  | next
  /-- At the lock in front of `rcu_start_batch`. -/
  | start
  /-- In `rcu_check_quiescent_state`. -/
  | check
  /-- It has read `RCU_qsctr`, for `RCU_last_qsctr`. -/
  | sample (qsctr : BitVec 32)
  /-- At the lock in `rcu_check_quiescent_state`. -/
  | clear
  /-- In `rcu_do_batch`, or in front of it. -/
  | doBatch
  deriving DecidableEq, Repr

/-- A `struct rcu_data`, with what `rcu_process_callbacks` has on its stack. -/
structure RcuData (H : Type*) where
  /-- `qsctr` -/
  qsctr : BitVec 32
  /-- `last_qsctr` -/
  lastQsctr : BitVec 32
  /-- `batch` -/
  batch : BitVec 32
  /-- `nxtlist` -/
  nxtlist : List H
  /-- `curlist` -/
  curlist : List H
  /-- `list` of `rcu_process_callbacks`. -/
  list : List H
  /-- Where it is. -/
  pc : RcuPc

/-- `rcu_ctrlblk` and the data of every CPU. -/
structure Rcu (C H : Type*) where
  /-- `curbatch` -/
  curbatch : BitVec 32
  /-- `maxbatch` -/
  maxbatch : BitVec 32
  /-- `rcu_cpu_mask` -/
  rcuCpuMask : Finset C
  /-- `cpu_online_map` -/
  cpuOnlineMap : Finset C
  /-- `rcu_data` -/
  rcuData : C → RcuData H

/-- What happens on a CPU. -/
inductive RcuAct (C H : Type*)
  /-- `rcu_online_cpu`, and the CPU runs. -/
  | onlineCpu (c : C)
  /-- `call_rcu` -/
  | callRcu (c : C) (h : H)
  /-- A quiescent state is counted, by `schedule` or by `rcu_check_callbacks`. -/
  | quiescent (c : C)
  /-- The next step of `rcu_process_callbacks`. -/
  | processCallbacks (c : C)
  deriving DecidableEq, Repr

namespace Rcu

variable {C H : Type*} [DecidableEq C]

/-- `rcu_batch_before` -/
def rcuBatchBefore (a b : BitVec 32) : Bool := (a - b).slt 0

/-- `rcu_batch_after` -/
def rcuBatchAfter (a b : BitVec 32) : Bool := (0 : BitVec 32).slt (a - b)

/-- `RCU_QSCTR_INVALID` -/
def rcuQsctrInvalid : BitVec 32 := 0

/-- `idle_cpu_mask`, which nothing changes. -/
def idleCpuMask : Finset C := ∅

/-- `rcu_online_cpu` -/
def rcuOnlineCpu : RcuData H := ⟨0, 0, 0, [], [], [], .out⟩

/-- The data of one CPU change. -/
def set (s : Rcu C H) (c : C) (d : RcuData H) : Rcu C H :=
  { s with rcuData := Function.update s.rcuData c d }

/-- `rcu_start_batch` -/
def rcuStartBatch (s : Rcu C H) (newbatch : BitVec 32) : Rcu C H :=
  let maxbatch := if rcuBatchBefore s.maxbatch newbatch then newbatch else s.maxbatch
  if rcuBatchBefore maxbatch s.curbatch ∨ s.rcuCpuMask ≠ ∅ then { s with maxbatch := maxbatch }
  else { s with maxbatch := maxbatch, rcuCpuMask := s.cpuOnlineMap \ idleCpuMask }

/-- `rcu_check_quiescent_state` up to its lock -/
def rcuCheckQuiescentState (s : Rcu C H) (c : C) : RcuPc :=
  let d := s.rcuData c
  if c ∉ s.rcuCpuMask then .doBatch
  else if d.lastQsctr = rcuQsctrInvalid then .sample d.qsctr
  else if d.qsctr = d.lastQsctr then .doBatch
  else .clear

/-- `rcu_check_quiescent_state` under its lock -/
def rcuClear (s : Rcu C H) (c : C) : Rcu C H :=
  let d := s.rcuData c
  if c ∉ s.rcuCpuMask then s.set c { d with pc := .doBatch }
  else
    let s := { s with rcuCpuMask := s.rcuCpuMask.erase c }.set c
      { d with lastQsctr := rcuQsctrInvalid, pc := .doBatch }
    if s.rcuCpuMask ≠ ∅ then s
    else rcuStartBatch { s with curbatch := s.curbatch + 1 } s.maxbatch

/-- One step of `rcu_process_callbacks` -/
def rcuProcessCallbacks (s : Rcu C H) (c : C) : Rcu C H :=
  let d := s.rcuData c
  match d.pc with
  | .out =>
    if d.curlist ≠ [] ∧ rcuBatchAfter s.curbatch d.batch then
      s.set c { d with list := d.curlist, curlist := [], pc := .next }
    else s.set c { d with list := [], pc := .next }
  | .next =>
    if d.nxtlist ≠ [] ∧ d.curlist = [] then
      s.set c { d with curlist := d.nxtlist, nxtlist := [], pc := .start }
    else s.set c { d with pc := .check }
  | .start =>
    (s.set c { d with batch := s.curbatch + 1, pc := .check }).rcuStartBatch (s.curbatch + 1)
  | .check => s.set c { d with pc := s.rcuCheckQuiescentState c }
  | .sample qsctr => s.set c { d with lastQsctr := qsctr, pc := .doBatch }
  | .clear => s.rcuClear c
  | .doBatch =>
    match d.list with
    | [] => s.set c { d with pc := .out }
    | _ :: list => s.set c { d with list := list }

/-- The step function. -/
def act (s : Rcu C H) : RcuAct C H → Option (Rcu C H)
  | .onlineCpu c =>
    if c ∈ s.cpuOnlineMap then none
    else some ({ s with cpuOnlineMap := insert c s.cpuOnlineMap }.set c rcuOnlineCpu)
  | .callRcu c h =>
    if c ∈ s.cpuOnlineMap then
      some (s.set c { s.rcuData c with nxtlist := (s.rcuData c).nxtlist ++ [h] })
    else none
  | .quiescent c =>
    if c ∈ s.cpuOnlineMap then
      some (s.set c { s.rcuData c with qsctr := (s.rcuData c).qsctr + 1 })
    else none
  | .processCallbacks c => if c ∈ s.cpuOnlineMap then some (s.rcuProcessCallbacks c) else none

/-- No CPU runs at first. -/
def machine (C H : Type*) [DecidableEq C] : Machine (Rcu C H) (RcuAct C H) where
  init := ⟨1, 1, ∅, ∅, fun _ => rcuOnlineCpu⟩
  step := act

/-- The callback that a step calls. -/
def calls (s : Rcu C H) : RcuAct C H → Option (C × H)
  | .processCallbacks c =>
    match (s.rcuData c).pc, (s.rcuData c).list with
    | .doBatch, h :: _ => some (c, h)
    | _, _ => none
  | _ => none

variable {s s' : Rcu C H} {a : RcuAct C H} {c q x : C} {h : H} {d : RcuData H} {n b : BitVec 32}

/-! ### Steps -/

@[simp] theorem set_curbatch (s : Rcu C H) (c : C) (d : RcuData H) :
    (s.set c d).curbatch = s.curbatch := rfl

@[simp] theorem set_maxbatch (s : Rcu C H) (c : C) (d : RcuData H) :
    (s.set c d).maxbatch = s.maxbatch := rfl

@[simp] theorem set_rcuCpuMask (s : Rcu C H) (c : C) (d : RcuData H) :
    (s.set c d).rcuCpuMask = s.rcuCpuMask := rfl

@[simp] theorem set_cpuOnlineMap (s : Rcu C H) (c : C) (d : RcuData H) :
    (s.set c d).cpuOnlineMap = s.cpuOnlineMap := rfl

@[simp] theorem set_self (s : Rcu C H) (c : C) (d : RcuData H) : (s.set c d).rcuData c = d :=
  Function.update_self ..

theorem set_of_ne (s : Rcu C H) (d : RcuData H) (hne : x ≠ c) :
    (s.set c d).rcuData x = s.rcuData x := Function.update_of_ne hne ..

/-- What `rcu_start_batch` does. -/
inductive Started (s : Rcu C H) (n : BitVec 32) : Rcu C H → Prop
  | same (hno : s.rcuCpuMask ≠ ∅ ∨ rcuBatchBefore (if rcuBatchBefore s.maxbatch n then n
      else s.maxbatch) s.curbatch) :
      Started s n { s with maxbatch := if rcuBatchBefore s.maxbatch n then n else s.maxbatch }
  | starts (hmask : s.rcuCpuMask = ∅) (hbatch : ¬ rcuBatchBefore (if rcuBatchBefore s.maxbatch n
      then n else s.maxbatch) s.curbatch) :
      Started s n { s with
        maxbatch := if rcuBatchBefore s.maxbatch n then n else s.maxbatch
        rcuCpuMask := s.cpuOnlineMap }

theorem started (s : Rcu C H) (n : BitVec 32) : Started s n (s.rcuStartBatch n) := by
  unfold rcuStartBatch
  generalize hmax : (if rcuBatchBefore s.maxbatch n then n else s.maxbatch) = m
  dsimp only
  split
  next hno =>
    subst hmax
    exact .same hno.symm
  next hno =>
    subst hmax
    rw [not_or, not_not] at hno
    simp only [idleCpuMask, Finset.sdiff_empty]
    exact .starts hno.2 hno.1

/-- What is true in every state. -/
structure Inv (s : Rcu C H) : Prop where
  maskOnline : s.rcuCpuMask ⊆ s.cpuOnlineMap
  last : ∀ x, (s.rcuData x).lastQsctr ≠ 0 → x ∈ s.rcuCpuMask
  sample : ∀ x v, (s.rcuData x).pc = .sample v → x ∈ s.rcuCpuMask
  clear : ∀ x, (s.rcuData x).pc = .clear → x ∈ s.rcuCpuMask
  offline : ∀ x ∉ s.cpuOnlineMap, s.rcuData x = rcuOnlineCpu
  empty : ∀ x, (s.rcuData x).pc = .out → (s.rcuData x).list = []

theorem inv_init : (machine C H).init.Inv where
  maskOnline := Finset.Subset.refl _
  last _ hne := absurd rfl hne
  sample := nofun
  clear := nofun
  offline _ _ := rfl
  empty _ _ := rfl

theorem Inv.set (hI : s.Inv) (hc : c ∈ s.cpuOnlineMap)
    (hlast : d.lastQsctr ≠ 0 → c ∈ s.rcuCpuMask)
    (hsample : ∀ v, d.pc = .sample v → c ∈ s.rcuCpuMask) (hclear : d.pc = .clear → c ∈ s.rcuCpuMask)
    (hempty : d.pc = .out → d.list = []) : (s.set c d).Inv := by
  refine ⟨hI.maskOnline, fun x => ?_, fun x => ?_, fun x => ?_, fun x hx => ?_, fun x => ?_⟩
  · rcases eq_or_ne x c with rfl | hne
    · rwa [set_self]
    · rw [set_of_ne s d hne]
      exact hI.last x
  · rcases eq_or_ne x c with rfl | hne
    · rwa [set_self]
    · rw [set_of_ne s d hne]
      exact hI.sample x
  · rcases eq_or_ne x c with rfl | hne
    · rwa [set_self]
    · rw [set_of_ne s d hne]
      exact hI.clear x
  · rcases eq_or_ne x c with rfl | hne
    · exact absurd hc hx
    · rw [set_of_ne s d hne]
      exact hI.offline x hx
  · rcases eq_or_ne x c with rfl | hne
    · rwa [set_self]
    · rw [set_of_ne s d hne]
      exact hI.empty x

omit [DecidableEq C] in
/-- With no CPU to wait for, none is about to take itself out. -/
theorem Inv.none (hI : s.Inv) (hmask : s.rcuCpuMask = ∅) (x : C) :
    (s.rcuData x).lastQsctr = 0 ∧ (s.rcuData x).pc ≠ .clear ∧
      ∀ v, (s.rcuData x).pc ≠ .sample v := by
  have hno : x ∉ s.rcuCpuMask := hmask ▸ Finset.notMem_empty x
  exact ⟨by_contra fun h => hno (hI.last x h), fun h => hno (hI.clear x h),
    fun v h => hno (hI.sample x v h)⟩

omit [DecidableEq C] in
theorem Inv.started (hI : s.Inv) (hs : Started s n s') : s'.Inv := by
  cases hs with
  | same hno => exact ⟨hI.maskOnline, hI.last, hI.sample, hI.clear, hI.offline, hI.empty⟩
  | starts hmask hbatch =>
    have hno := hI.none hmask
    exact ⟨Finset.Subset.refl _, fun x hx => absurd (hno x).1 hx,
      fun x v hx => absurd hx ((hno x).2.2 v), fun x hx => absurd hx (hno x).2.1, hI.offline,
      hI.empty⟩

omit [DecidableEq C] in
/-- The invariant does not depend on the batch. -/
theorem Inv.next (hI : s.Inv) (b : BitVec 32) : ({ s with curbatch := b } : Rcu C H).Inv :=
  ⟨hI.maskOnline, hI.last, hI.sample, hI.clear, hI.offline, hI.empty⟩

theorem Inv.ask (hI : s.Inv) (hc : c ∈ s.cpuOnlineMap) :
    (s.set c { s.rcuData c with batch := b, pc := .check }).Inv :=
  hI.set hc (hI.last c) nofun nofun nofun

/-- A CPU takes itself out of the mask. -/
def leave (s : Rcu C H) (c : C) : Rcu C H :=
  { s with rcuCpuMask := s.rcuCpuMask.erase c }.set c
    { s.rcuData c with lastQsctr := rcuQsctrInvalid, pc := .doBatch }

theorem leave_of_ne (s : Rcu C H) (hne : x ≠ c) : (s.leave c).rcuData x = s.rcuData x :=
  set_of_ne _ _ hne

theorem leave_self (s : Rcu C H) (c : C) : (s.leave c).rcuData c =
    { s.rcuData c with lastQsctr := rcuQsctrInvalid, pc := .doBatch } := set_self ..

theorem Inv.leave (hI : s.Inv) (hc : c ∈ s.cpuOnlineMap) : (s.leave c).Inv := by
  refine ⟨(Finset.erase_subset ..).trans hI.maskOnline, fun x hx => ?_, fun x v hx => ?_,
    fun x hx => ?_, fun x hx => ?_, fun x hx => ?_⟩
  all_goals rcases eq_or_ne x c with rfl | hne
  · rw [leave_self] at hx
    exact absurd rfl hx
  · rw [leave_of_ne s hne] at hx
    exact Finset.mem_erase.2 ⟨hne, hI.last x hx⟩
  · rw [leave_self] at hx
    cases hx
  · rw [leave_of_ne s hne] at hx
    exact Finset.mem_erase.2 ⟨hne, hI.sample x v hx⟩
  · rw [leave_self] at hx
    cases hx
  · rw [leave_of_ne s hne] at hx
    exact Finset.mem_erase.2 ⟨hne, hI.clear x hx⟩
  · exact absurd hc hx
  · rw [leave_of_ne s hne]
    exact hI.offline x hx
  · rw [leave_self] at hx
    cases hx
  · rw [leave_of_ne s hne] at hx ⊢
    exact hI.empty x hx

/-- A step of the tasklet, by what it finds. -/
inductive Processed (s : Rcu C H) (c : C) : Rcu C H → Prop
  | take (hpc : (s.rcuData c).pc = .out) (hne : (s.rcuData c).curlist ≠ [])
      (hafter : rcuBatchAfter s.curbatch (s.rcuData c).batch = true) :
      Processed s c (s.set c { s.rcuData c with
        list := (s.rcuData c).curlist, curlist := [], pc := .next })
  | begin (hpc : (s.rcuData c).pc = .out) (hno : (s.rcuData c).curlist = [] ∨
      rcuBatchAfter s.curbatch (s.rcuData c).batch = false) :
      Processed s c (s.set c { s.rcuData c with list := [], pc := .next })
  | move (hpc : (s.rcuData c).pc = .next) (hcur : (s.rcuData c).curlist = []) :
      Processed s c (s.set c { s.rcuData c with
        curlist := (s.rcuData c).nxtlist, nxtlist := [], pc := .start })
  | keep (hpc : (s.rcuData c).pc = .next) :
      Processed s c (s.set c { s.rcuData c with pc := .check })
  | start (hpc : (s.rcuData c).pc = .start) :
      Processed s c ((s.set c { s.rcuData c with
        batch := s.curbatch + 1, pc := .check }).rcuStartBatch (s.curbatch + 1))
  | seen (hpc : (s.rcuData c).pc = .check ∨ (s.rcuData c).pc = .clear)
      (hno : c ∉ s.rcuCpuMask ∨ (s.rcuData c).lastQsctr ≠ 0) (hclear : (s.rcuData c).pc = .clear →
        c ∉ s.rcuCpuMask) :
      Processed s c (s.set c { s.rcuData c with pc := .doBatch })
  | read (hpc : (s.rcuData c).pc = .check) (hmask : c ∈ s.rcuCpuMask)
      (hlast : (s.rcuData c).lastQsctr = 0) :
      Processed s c (s.set c { s.rcuData c with pc := .sample (s.rcuData c).qsctr })
  | find (hpc : (s.rcuData c).pc = .check) (hmask : c ∈ s.rcuCpuMask)
      (hlast : (s.rcuData c).lastQsctr ≠ 0) (hne : (s.rcuData c).qsctr ≠ (s.rcuData c).lastQsctr) :
      Processed s c (s.set c { s.rcuData c with pc := .clear })
  | store (v : BitVec 32) (hpc : (s.rcuData c).pc = .sample v) :
      Processed s c (s.set c { s.rcuData c with lastQsctr := v, pc := .doBatch })
  | leave (hpc : (s.rcuData c).pc = .clear) (hmask : c ∈ s.rcuCpuMask)
      (hmore : s.rcuCpuMask.erase c ≠ ∅) : Processed s c (s.leave c)
  | last (hpc : (s.rcuData c).pc = .clear) (hmask : c ∈ s.rcuCpuMask)
      (hlast : s.rcuCpuMask.erase c = ∅) :
      Processed s c (Rcu.rcuStartBatch { s.leave c with curbatch := s.curbatch + 1 } s.maxbatch)
  | done (hpc : (s.rcuData c).pc = .doBatch) (hlist : (s.rcuData c).list = []) :
      Processed s c (s.set c { s.rcuData c with pc := .out })
  | call (h : H) (l : List H) (hpc : (s.rcuData c).pc = .doBatch)
      (hlist : (s.rcuData c).list = h :: l) :
      Processed s c (s.set c { s.rcuData c with list := l })

theorem processed (s : Rcu C H) (c : C) : Processed s c (s.rcuProcessCallbacks c) := by
  unfold rcuProcessCallbacks
  dsimp only
  split
  next hpc =>
    split
    next htake => exact .take hpc htake.1 htake.2
    next hno =>
      refine .begin hpc ?_
      simpa only [not_and_or, not_not, Bool.not_eq_true] using hno
  next hpc =>
    split
    next hmove => exact .move hpc hmove.2
    next => exact .keep hpc
  next hpc => exact .start hpc
  next hpc =>
    unfold rcuCheckQuiescentState
    dsimp only
    split
    next hmask => exact .seen (.inl hpc) (.inl hmask) fun h => absurd (hpc.symm.trans h) nofun
    next hmask =>
      rw [not_not] at hmask
      split
      next hlast => exact .read hpc hmask hlast
      next hlast =>
        split
        next => exact .seen (.inl hpc) (.inr hlast) fun h => absurd (hpc.symm.trans h) nofun
        next hne => exact .find hpc hmask hlast hne
  next v hpc => exact .store v hpc
  next hpc =>
    unfold rcuClear
    dsimp only
    split
    next hmask => exact .seen (.inr hpc) (.inl hmask) fun _ => hmask
    next hmask =>
      rw [not_not] at hmask
      split
      next hmore => exact .leave hpc hmask hmore
      next hlast => exact .last hpc hmask (not_not.1 hlast)
  next hpc =>
    split
    next hlist => exact .done hpc hlist
    next h l hlist => exact .call h l hpc hlist

/-- Every step keeps the invariant. -/
theorem Inv.processed (hI : s.Inv) (hc : c ∈ s.cpuOnlineMap) (hs : Processed s c s') : s'.Inv := by
  cases hs with
  | take hpc hne hafter => exact hI.set hc (hI.last c) nofun nofun nofun
  | begin hpc hno => exact hI.set hc (hI.last c) nofun nofun nofun
  | move hpc hcur => exact hI.set hc (hI.last c) nofun nofun nofun
  | keep hpc => exact hI.set hc (hI.last c) nofun nofun nofun
  | start hpc =>
    exact (hI.ask hc).started (Rcu.started _ _)
  | seen hpc hno hclear => exact hI.set hc (hI.last c) nofun nofun nofun
  | read hpc hmask hlast => exact hI.set hc (hI.last c) (fun _ _ => hmask) nofun nofun
  | find hpc hmask hlast hne => exact hI.set hc (hI.last c) nofun (fun _ => hmask) nofun
  | store v hpc => exact hI.set hc (fun _ => hI.sample c v hpc) nofun nofun nofun
  | leave hpc hmask hmore => exact hI.leave hc
  | last hpc hmask hlast =>
    exact ((hI.leave hc).next _).started (Rcu.started _ _)
  | done hpc hlist => exact hI.set hc (hI.last c) nofun nofun fun _ => hlist
  | call h l hpc hlist =>
    exact hI.set hc (hI.last c) (hI.sample c) (hI.clear c) fun hout => absurd (hpc.symm.trans hout)
      nofun

/-- A step, by what happens. -/
inductive Acted (s : Rcu C H) : RcuAct C H → Rcu C H → Prop
  | onlineCpu (c : C) (hc : c ∉ s.cpuOnlineMap) : Acted s (.onlineCpu c)
      ({ s with cpuOnlineMap := insert c s.cpuOnlineMap }.set c rcuOnlineCpu)
  | callRcu (c : C) (h : H) (hc : c ∈ s.cpuOnlineMap) : Acted s (.callRcu c h)
      (s.set c { s.rcuData c with nxtlist := (s.rcuData c).nxtlist ++ [h] })
  | quiescent (c : C) (hc : c ∈ s.cpuOnlineMap) : Acted s (.quiescent c)
      (s.set c { s.rcuData c with qsctr := (s.rcuData c).qsctr + 1 })
  | processCallbacks (c : C) (hc : c ∈ s.cpuOnlineMap) {s' : Rcu C H} (hs : Processed s c s') :
      Acted s (.processCallbacks c) s'

theorem acted (hst : s.act a = some s') : Acted s a s' := by
  cases a with
  | onlineCpu c =>
    simp only [Rcu.act, Option.ite_none_left_eq_some, Option.some.injEq] at hst
    obtain ⟨hc, rfl⟩ := hst
    exact .onlineCpu c hc
  | callRcu c h =>
    simp only [Rcu.act, Option.ite_none_right_eq_some, Option.some.injEq] at hst
    obtain ⟨hc, rfl⟩ := hst
    exact .callRcu c h hc
  | quiescent c =>
    simp only [Rcu.act, Option.ite_none_right_eq_some, Option.some.injEq] at hst
    obtain ⟨hc, rfl⟩ := hst
    exact .quiescent c hc
  | processCallbacks c =>
    simp only [Rcu.act, Option.ite_none_right_eq_some, Option.some.injEq] at hst
    obtain ⟨hc, rfl⟩ := hst
    exact .processCallbacks c hc (processed s c)

theorem Inv.acted (hI : s.Inv) (hst : Acted s a s') : s'.Inv := by
  cases hst with
  | onlineCpu c hc =>
    have hI' : ({ s with cpuOnlineMap := insert c s.cpuOnlineMap } : Rcu C H).Inv :=
      ⟨hI.maskOnline.trans (Finset.subset_insert ..), hI.last, hI.sample, hI.clear,
        fun x hx => hI.offline x fun hin => hx (Finset.mem_insert_of_mem hin), hI.empty⟩
    exact hI'.set (Finset.mem_insert_self ..) (fun hne => absurd rfl hne) nofun nofun fun _ => rfl
  | callRcu c h hc => exact hI.set hc (hI.last c) (hI.sample c) (hI.clear c) (hI.empty c)
  | quiescent c hc => exact hI.set hc (hI.last c) (hI.sample c) (hI.clear c) (hI.empty c)
  | processCallbacks c hc hs => exact hI.processed hc hs

theorem inv_of_exec {as : List (RcuAct C H)}
    (hrun : (machine C H).exec (machine C H).init as = some s) : s.Inv :=
  (Machine.run_anyStep_iff.2 hrun).invariant (fun _ _ _ hI _ hst => hI.acted (acted hst)) inv_init

end Rcu

end LxApi32
