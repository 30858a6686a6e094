import LxApi32.Sync.Rcu

/-!
# The grace period

The reader of a list does not lock it.  What is taken out of the list is freed by a callback, and a
reader that has seen it lets its CPU go through no quiescent state before it has done with it.

* `Rcu.Waits` : a callback has yet to wait for a CPU.  Its batch is not over, and what the CPU has
  seen of its counter in that batch is not old.
* `Rcu.grace_period` : a callback is called only after each CPU has gone through a quiescent state.
-/

namespace LxApi32

namespace Rcu

variable {C H : Type*} [DecidableEq C] {s s' : Rcu C H} {a : RcuAct C H} {c q x : C} {h : H}
  {d : RcuData H} {n : BitVec 32}

theorem rcuBatchAfter_self (b : BitVec 32) : rcuBatchAfter b b = false := by
  rw [rcuBatchAfter, BitVec.sub_self]
  decide

theorem rcuBatchAfter_pred (b : BitVec 32) : rcuBatchAfter (b - 1) b = false := by
  have hsub : b - 1 - b = -1 := by bv_omega
  rw [rcuBatchAfter, hsub]
  decide

/-- The CPU is waited for, and nothing that it has seen of its counter is old. -/
structure Unseen (s : Rcu C H) (q : C) : Prop where
  mask : q ∈ s.rcuCpuMask
  last : (s.rcuData q).lastQsctr = 0 ∨ (s.rcuData q).lastQsctr = (s.rcuData q).qsctr
  clear : (s.rcuData q).pc ≠ .clear
  sample : ∀ v, (s.rcuData q).pc = .sample v → v = (s.rcuData q).qsctr

/-- The batch is not over before the CPU goes through a quiescent state. -/
def Before (s : Rcu C H) (q : C) (b : BitVec 32) : Prop :=
  s.curbatch = b - 1 ∨ s.curbatch = b ∧ (s.rcuCpuMask = ∅ ∨ s.Unseen q)

/-- The callback is not called before the CPU goes through a quiescent state. -/
structure Waits (s : Rcu C H) (h : H) (q : C) : Prop where
  online : q ∈ s.cpuOnlineMap
  list : ∀ x, h ∉ (s.rcuData x).list
  cur : ∀ x, h ∈ (s.rcuData x).curlist →
    (s.rcuData x).pc = .start ∨ s.Before q (s.rcuData x).batch

omit [DecidableEq C] in
theorem Waits.before (hw : s.Waits h q) (hpc : (s.rcuData c).pc ≠ .start)
    (hin : h ∈ (s.rcuData c).curlist) : s.Before q (s.rcuData c).batch :=
  (hw.cur c hin).resolve_left hpc

theorem Waits.set (hw : s.Waits h q) (hlist : h ∉ d.list)
    (hcur : h ∈ d.curlist → d.pc = .start ∨ s.Before q d.batch)
    (hunseen : c = q → s.Unseen q → (d.lastQsctr = 0 ∨ d.lastQsctr = d.qsctr) ∧ d.pc ≠ .clear ∧
      ∀ v, d.pc = .sample v → v = d.qsctr) : (s.set c d).Waits h q := by
  have hu : s.Unseen q → (s.set c d).Unseen q := fun hu => by
    rcases eq_or_ne c q with rfl | hne
    · obtain ⟨hlast, hclear, hsample⟩ := hunseen rfl hu
      exact ⟨hu.mask, by rwa [set_self], by rwa [set_self], by rwa [set_self]⟩
    · have hq := set_of_ne s d hne.symm
      exact ⟨hu.mask, hq ▸ hu.last, hq ▸ hu.clear, hq ▸ hu.sample⟩
  have hbefore : ∀ b, s.Before q b → (s.set c d).Before q b := fun b =>
    Or.imp id (And.imp id (Or.imp id hu))
  refine ⟨hw.online, fun x => ?_, fun x hx => ?_⟩
  · rcases eq_or_ne x c with rfl | hne
    · rwa [set_self]
    · rw [set_of_ne s d hne]
      exact hw.list x
  · rcases eq_or_ne x c with rfl | hne
    · rw [set_self] at hx ⊢
      exact (hcur hx).imp id (hbefore _)
    · rw [set_of_ne s d hne] at hx ⊢
      exact (hw.cur x hx).imp id (hbefore _)

omit [DecidableEq C] in
/-- A grace period begins without anything seen. -/
theorem Waits.started (hI : s.Inv) (hw : s.Waits h q) (hs : Started s n s') : s'.Waits h q := by
  cases hs with
  | same hno =>
    refine ⟨hw.online, hw.list, fun x hx => (hw.cur x hx).imp id ?_⟩
    exact Or.imp id (And.imp id (Or.imp id fun hu => ⟨hu.mask, hu.last, hu.clear, hu.sample⟩))
  | starts hmask hbatch =>
    obtain ⟨hlast, hclear, hsample⟩ := hI.none hmask q
    refine ⟨hw.online, hw.list, fun x hx => (hw.cur x hx).imp id ?_⟩
    exact Or.imp id (And.imp id fun _ => .inr ⟨hw.online, .inl hlast, hclear, fun v hv =>
      absurd hv (hsample v)⟩)

omit [DecidableEq C] in
/-- A CPU that has not been quiescent does not leave the mask. -/
theorem Unseen.ne (hu : s.Unseen q) (hpc : (s.rcuData c).pc = .clear) : q ≠ c := fun heq =>
  hu.clear (heq ▸ hpc)

theorem leave_list (s : Rcu C H) (c x : C) : ((s.leave c).rcuData x).list = (s.rcuData x).list := by
  rcases eq_or_ne x c with rfl | hne
  · rw [leave_self]
  · rw [leave_of_ne s hne]

/-- What waits in a list waits for the end of its batch. -/
theorem Waits.leave_cur (hw : s.Waits h q) (hpc : (s.rcuData c).pc = .clear)
    (hx : h ∈ ((s.leave c).rcuData x).curlist) : ((s.leave c).rcuData x).pc = .start ∨
      s.Before q ((s.leave c).rcuData x).batch := by
  rcases eq_or_ne x c with rfl | hne
  · rw [leave_self] at hx ⊢
    exact .inr (hw.before (hpc ▸ nofun) hx)
  · rw [leave_of_ne s hne] at hx ⊢
    exact hw.cur x hx

theorem Waits.leave (hw : s.Waits h q) (hpc : (s.rcuData c).pc = .clear)
    (hmask : c ∈ s.rcuCpuMask) : (s.leave c).Waits h q := by
  refine ⟨hw.online, fun x => leave_list s c x ▸ hw.list x, fun x hx =>
    (hw.leave_cur hpc hx).imp id (Or.imp id (And.imp id ?_))⟩
  rintro (hnone | hu)
  · rw [hnone] at hmask
    exact absurd hmask (Finset.notMem_empty c)
  · have hne := hu.ne hpc
    have hq := leave_of_ne s hne
    exact .inr ⟨Finset.mem_erase.2 ⟨hne, hu.mask⟩, hq ▸ hu.last, hq ▸ hu.clear, hq ▸ hu.sample⟩

/-- The batch goes on by one when the last CPU leaves the mask. -/
theorem Waits.last (hw : s.Waits h q) (hpc : (s.rcuData c).pc = .clear)
    (hmask : c ∈ s.rcuCpuMask) (hlast : s.rcuCpuMask.erase c = ∅) :
    ({ s.leave c with curbatch := s.curbatch + 1 } : Rcu C H).Waits h q := by
  refine ⟨hw.online, fun x => leave_list s c x ▸ hw.list x, fun x hx =>
    (hw.leave_cur hpc hx).imp id ?_⟩
  rintro (hpred | ⟨-, hnone | hu⟩)
  · exact .inr ⟨by rw [hpred]; bv_omega, .inl hlast⟩
  · rw [hnone] at hmask
    exact absurd hmask (Finset.notMem_empty c)
  · have hq : q ∈ s.rcuCpuMask.erase c := Finset.mem_erase.2 ⟨hu.ne hpc, hu.mask⟩
    rw [hlast] at hq
    exact absurd hq (Finset.notMem_empty q)

theorem Waits.processed (hI : s.Inv) (hw : s.Waits h q) (hc : c ∈ s.cpuOnlineMap)
    (hs : Processed s c s') : s'.Waits h q := by
  cases hs with
  | take hpc hne hafter =>
    refine hw.set (fun hin => ?_) nofun fun hq hu => ⟨hq ▸ hu.last, nofun, nofun⟩
    -- its batch is not over
    rcases hw.cur c hin with hstart | hpred | ⟨hself, -⟩
    · exact absurd (hpc.symm.trans hstart) nofun
    · rw [hpred, rcuBatchAfter_pred] at hafter
      cases hafter
    · rw [hself, rcuBatchAfter_self] at hafter
      cases hafter
  | begin hpc hno =>
    exact hw.set nofun (fun hin => .inr (hw.before (hpc ▸ nofun) hin))
      fun hq hu => ⟨hq ▸ hu.last, nofun, nofun⟩
  | move hpc hcur =>
    exact hw.set (hw.list c) (fun _ => .inl rfl) fun hq hu => ⟨hq ▸ hu.last, nofun, nofun⟩
  | keep hpc =>
    exact hw.set (hw.list c) (fun hin => .inr (hw.before (hpc ▸ nofun) hin))
      fun hq hu => ⟨hq ▸ hu.last, nofun, nofun⟩
  | start hpc =>
    have hset : (s.set c { s.rcuData c with batch := s.curbatch + 1, pc := .check }).Waits h q :=
      hw.set (hw.list c) (fun _ => .inr (.inl (by bv_omega))) fun hq hu =>
        ⟨hq ▸ hu.last, nofun, nofun⟩
    exact hset.started (hI.ask hc) (Rcu.started _ _)
  | seen hpc hno hclear =>
    have hstart : (s.rcuData c).pc ≠ .start := by
      rcases hpc with hpc | hpc
      · exact hpc ▸ nofun
      · exact hpc ▸ nofun
    exact hw.set (hw.list c) (fun hin => .inr (hw.before hstart hin))
      fun hq hu => ⟨hq ▸ hu.last, nofun, nofun⟩
  | read hpc hmask hlast =>
    -- what it reads of its counter is new
    exact hw.set (hw.list c) (fun hin => .inr (hw.before (hpc ▸ nofun) hin))
      fun hq hu => ⟨hq ▸ hu.last, nofun, fun v hv => (RcuPc.sample.inj hv).symm⟩
  | find hpc hmask hlast hne =>
    refine hw.set (hw.list c) (fun hin => .inr (hw.before (hpc ▸ nofun) hin)) fun hq hu => ?_
    subst hq
    -- its counter would have to be another one
    exact absurd (hu.last.resolve_left hlast).symm hne
  | store v hpc =>
    refine hw.set (hw.list c) (fun hin => .inr (hw.before (hpc ▸ nofun) hin)) fun hq hu => ?_
    subst hq
    exact ⟨.inr (hu.sample v hpc), nofun, nofun⟩
  | leave hpc hmask hmore => exact hw.leave hpc hmask
  | last hpc hmask hlast =>
    exact (hw.last hpc hmask hlast).started ((hI.leave hc).next _) (Rcu.started _ _)
  | done hpc hlist =>
    exact hw.set (hw.list c) (fun hin => .inr (hw.before (hpc ▸ nofun) hin))
      fun hq hu => ⟨hq ▸ hu.last, nofun, nofun⟩
  | call h' l hpc hlist =>
    refine hw.set (fun hin => hw.list c (hlist ▸ List.mem_cons_of_mem _ hin))
      (fun hin => hw.cur c hin) fun hq hu => ?_
    subst hq
    exact ⟨hu.last, hu.clear, hu.sample⟩

theorem Waits.acted (hI : s.Inv) (hw : s.Waits h q) (hst : Acted s a s') (hq : a ≠ .quiescent q) :
    s'.Waits h q := by
  cases hst with
  | onlineCpu c hc =>
    have hw' : ({ s with cpuOnlineMap := insert c s.cpuOnlineMap } : Rcu C H).Waits h q :=
      ⟨Finset.mem_insert_of_mem hw.online, hw.list, fun x hx => (hw.cur x hx).imp id
        (Or.imp id (And.imp id (Or.imp id fun hu => ⟨hu.mask, hu.last, hu.clear, hu.sample⟩)))⟩
    exact hw'.set nofun nofun fun heq => absurd (heq ▸ hw.online) hc
  | callRcu c h' hc =>
    refine hw.set (hw.list c) (hw.cur c) fun heq hu => ?_
    subst heq
    exact ⟨hu.last, hu.clear, hu.sample⟩
  | quiescent c hc => exact hw.set (hw.list c) (hw.cur c) fun heq => absurd (heq ▸ rfl) hq
  | processCallbacks c hc hs => exact hw.processed hI hc hs

theorem Waits.exec {as : List (RcuAct C H)} (hI : s.Inv) (hw : s.Waits h q)
    (hrun : (machine C H).exec s as = some s') (hno : .quiescent q ∉ as) : s'.Waits h q := by
  induction as generalizing s with
  | nil =>
    cases hrun
    exact hw
  | cons a as ih =>
    obtain ⟨s₁, hst, hrest⟩ := Machine.exec_cons_eq_some.1 hrun
    have hact : Acted s a s₁ := Rcu.acted hst
    have hq : a ≠ .quiescent q := fun heq => hno (heq ▸ List.mem_cons_self)
    exact ih (hI.acted hact) (hw.acted hI hact hq) hrest fun hin => hno (List.mem_cons_of_mem a hin)

omit [DecidableEq C] in
theorem mem_list_of_calls (hcalls : s.calls a = some (c, h)) : h ∈ (s.rcuData c).list := by
  cases a with
  | processCallbacks x =>
    simp only [calls] at hcalls
    split at hcalls
    next h' l hpc hlist =>
      simp only [Option.some.injEq, Prod.mk.injEq] at hcalls
      obtain ⟨rfl, rfl⟩ := hcalls
      exact hlist ▸ List.mem_cons_self
    next => cases hcalls
  | onlineCpu | callRcu | quiescent => cases hcalls

/-- **The grace period.**  Whatever the CPUs do, and however their steps come in between each other:
between `call_rcu` and the call of the callback, each CPU that ran at the time of `call_rcu` has
gone through a quiescent state. -/
theorem grace_period {as bs : List (RcuAct C H)} {s₁ s₂ : Rcu C H}
    (h₁ : (machine C H).exec (machine C H).init as = some s₁)
    (hnew : ∀ x, h ∉ (s₁.rcuData x).curlist ∧ h ∉ (s₁.rcuData x).list)
    (h₂ : (machine C H).exec s₁ (.callRcu c h :: bs) = some s₂)
    (hcalls : s₂.calls a = some (x, h)) (hq : q ∈ s₁.cpuOnlineMap) : .quiescent q ∈ bs := by
  by_contra hno
  have hw : s₁.Waits h q := ⟨hq, fun x => (hnew x).2, fun x hx => absurd hx (hnew x).1⟩
  have hw' : s₂.Waits h q := hw.exec (inv_of_exec h₁) h₂ (by simpa using hno)
  exact hw'.list x (mem_list_of_calls hcalls)

/-- A CPU that is alone needs two quiescent states, of which each ends a batch. -/
theorem grace_period_alone :
    (.quiescent () : RcuAct Unit Unit) ∈ List.replicate 6 (.processCallbacks ()) ++
      .quiescent () :: List.replicate 10 (.processCallbacks ()) ++
      .quiescent () :: List.replicate 8 (.processCallbacks ()) := by
  have hcall : ((machine Unit Unit).exec (machine Unit Unit).init ([.onlineCpu (), .quiescent (),
      .callRcu () ()] ++ (List.replicate 6 (.processCallbacks ()) ++
      .quiescent () :: List.replicate 10 (.processCallbacks ()) ++
      .quiescent () :: List.replicate 8 (.processCallbacks ())))).bind
        (fun s => s.calls (.processCallbacks ())) = some ((), ()) := by decide +kernel
  obtain ⟨s₂, hrun, hcalls⟩ := Option.bind_eq_some_iff.1 hcall
  rw [List.cons_append, List.cons_append] at hrun
  obtain ⟨s₀, h₀, hrun⟩ := Machine.exec_cons_eq_some.1 hrun
  obtain ⟨s₁, h₁, hrun⟩ := Machine.exec_cons_eq_some.1 hrun
  cases h₀
  cases h₁
  have hinit : (machine Unit Unit).exec (machine Unit Unit).init [.onlineCpu (), .quiescent ()] =
      some _ := rfl
  exact grace_period hinit (by decide) hrun hcalls (by decide)

end Rcu

end LxApi32
