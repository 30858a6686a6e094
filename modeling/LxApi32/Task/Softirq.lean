import LxApi32.Task.Service

/-!
# Softirq requests

`LX_wakeup_softirq` counts up `lx_softirq_wakes`; an iteration of the service thread that finds
the counter non-zero resets it and calls `do_softirq` afterwards.  A call that comes between the
test and the reset is served by the same `do_softirq`, one that comes later finds the counter
reset.

* `TaskSys.wakeup_answered` : no request is lost, and an iteration that begins with the counter
  non-zero runs `do_softirq`, as long as the counter does not wrap (`TaskSys.NoWrap`).
* `TaskSys.not_answered_wrapped` : after `2 ^ 32` calls without a reset the counter is zero again.
-/

namespace LxApi32

/-- What can be seen of the softirqs from outside. -/
inductive SoftirqEvent
  /-- A call of `LX_wakeup_softirq`. -/
  | wakeup
  /-- `do_softirq` begins. -/
  | doSoftirq
  deriving DecidableEq, Repr

namespace TaskSys

/-- The softirq events of a step. -/
def softirqBy (s : TaskSys) : TaskAct → List SoftirqEvent
  | .wakeup => [.wakeup]
  | .service => if s.service = .softirq then [.doSoftirq] else []
  | _ => []

/-- No call of `LX_wakeup_softirq` makes the counter wrap. -/
def NoWrap (s : TaskSys) (a : TaskAct) : Prop := a = .wakeup → s.wakes ≠ -1

/-- The request is not forgotten: the counter is non-zero or `do_softirq` comes next. -/
def SoftirqDue (s : TaskSys) : Prop := s.service = .softirq ∨ s.wakes ≠ 0

/-- Every request in the history is followed by a `do_softirq`, or is not forgotten. -/
def Answered (l : List SoftirqEvent) (s : TaskSys) : Prop :=
  ∀ l₁ l₂, l = l₁ ++ .wakeup :: l₂ → .doSoftirq ∈ l₂ ∨ s.SoftirqDue

/-! ### One step -/

theorem wakes_succ_ne_zero {w : ULONG} (h : w ≠ -1) : w + 1 ≠ 0 := by
  intro h'
  exact h (eq_neg_of_add_eq_zero_left h')

/-- A step that is not the start of `do_softirq` forgets no request. -/
theorem softirqDue_step {s s' : TaskSys} {a : TaskAct} (h : s.SoftirqDue) (hg : NoWrap s a)
    (hst : Step s a s') (hrun : s.softirqBy a ≠ [.doSoftirq]) : s'.SoftirqDue := by
  have hne : ∀ pc, s.service = pc → pc ≠ .softirq → s.wakes ≠ 0 := by
    intro pc hpc hn
    rcases h with h | h
    · exact absurd (hpc.symm.trans h) hn
    · exact h
  cases hst with
  | wakeup => exact .inr (wakes_succ_ne_zero (hg rfl))
  | reset => exact .inl rfl
  | move hm =>
    by_cases hpc : s.service = .softirq
    · exact absurd (by simp only [softirqBy, hpc, ↓reduceIte]) hrun
    · exact .inr (hne _ rfl hpc)
  | pop hpc => exact .inr (hne _ hpc nofun)
  | fillPrev hpc => exact .inr (hne _ hpc nofun)
  | fillEsp hpc => exact .inr (hne _ hpc nofun)
  | fillEip hpc => exact .inr (hne _ hpc nofun)
  | createFails hpc => exact .inr (hne _ hpc nofun)
  | create hpc => exact .inr (hne _ hpc nofun)
  | testWait hpc => exact .inr (hne _ hpc nofun)
  | testNoWait hpc => exact .inr (hne _ hpc nofun)
  | free hpc => exact .inr (hne _ hpc nofun)
  | setStarted hpc => exact .inr (hne _ hpc nofun)
  | _ => exact h

/-- What a step shows is a call, the start of `do_softirq`, or nothing. -/
theorem softirqBy_cases (s : TaskSys) (a : TaskAct) :
    (a = .wakeup ∧ s.softirqBy a = [.wakeup]) ∨ s.softirqBy a = [.doSoftirq] ∨
      s.softirqBy a = [] := by
  cases a with
  | wakeup => exact .inl ⟨rfl, rfl⟩
  | service =>
    by_cases hpc : s.service = .softirq
    · exact .inr (.inl (by simp only [softirqBy, hpc, ↓reduceIte]))
    · exact .inr (.inr (by simp only [softirqBy, hpc, ↓reduceIte]))
  | _ => exact .inr (.inr rfl)

/-- A last element of a list that is split before it. -/
theorem append_eq_append_cons {α : Type*} {l l₁ l₂ : List α} {x y : α}
    (h : l ++ [y] = l₁ ++ x :: l₂) :
    (∃ l₃, l = l₁ ++ x :: l₃ ∧ l₂ = l₃ ++ [y]) ∨ (l = l₁ ∧ x = y ∧ l₂ = []) := by
  rcases List.eq_nil_or_concat l₂ with rfl | ⟨l₃, z, rfl⟩
  · obtain ⟨rfl, hxy⟩ := List.append_inj' h rfl
    exact .inr ⟨rfl, (List.cons.inj hxy).1.symm, rfl⟩
  · rw [List.concat_eq_append, ← List.cons_append, ← List.append_assoc] at h
    obtain ⟨rfl, hyz⟩ := List.append_inj' h rfl
    obtain rfl := (List.cons.inj hyz).1
    exact .inl ⟨l₃, rfl, List.concat_eq_append⟩

theorem answered_step {l : List SoftirqEvent} {s s' : TaskSys} {a : TaskAct} (h : Answered l s)
    (hg : NoWrap s a) (hst : Step s a s') : Answered (l ++ s.softirqBy a) s' := by
  intro l₁ l₂ hl
  rcases softirqBy_cases s a with ⟨rfl, hev⟩ | hev | hev
  · -- a request: the counter is non-zero now
    cases hst with
    | wakeup => exact .inr (.inr (wakes_succ_ne_zero (hg rfl)))
  · -- `do_softirq` begins, after all requests so far
    rw [hev] at hl
    rcases append_eq_append_cons hl with ⟨l₃, -, rfl⟩ | ⟨-, hx, -⟩
    · exact .inl (List.mem_append_right _ List.mem_cons_self)
    · cases hx
  · rw [hev, List.append_nil] at hl
    rcases h l₁ l₂ hl with hmem | hdue
    · exact .inl hmem
    · exact .inr (softirqDue_step hdue hg hst (by rw [hev]; exact nofun))

/-! ### The next iteration -/

/-- The step of the service thread is a function of the state. -/
theorem service_eq_of_step {s s' s'' : TaskSys} (hst : machine.step s .service = some s')
    (h : s.serviceStep = some s'') : s' = s'' :=
  Option.some.inj (hst.symm.trans h)

/-- The others do not move the service thread, unless it is in `LXA_CreateThread`, and do not
reset the counter. -/
theorem service_of_step {s s' : TaskSys} {a : TaskAct} (hst : Step s a s') (ha : a ≠ .service)
    (hpc : ∀ p, s.service ≠ .create p) :
    s'.service = s.service ∧ (NoWrap s a → s.wakes ≠ 0 → s'.wakes ≠ 0) := by
  cases hst with
  | wakeup => exact ⟨rfl, fun hg _ => wakes_succ_ne_zero (hg rfl)⟩
  | createFails h => exact absurd h (hpc _)
  | create h => exact absurd h (hpc _)
  | callNoMemory => exact ⟨rfl, fun _ => id⟩
  | call => exact ⟨rfl, fun _ => id⟩
  | enqueue => exact ⟨rfl, fun _ => id⟩
  | pollReturn => exact ⟨rfl, fun _ => id⟩
  | pollAgain => exact ⟨rfl, fun _ => id⟩
  | pollStarted => exact ⟨rfl, fun _ => id⟩
  | take => exact ⟨rfl, fun _ => id⟩
  | release => exact ⟨rfl, fun _ => id⟩
  | stubFails => exact ⟨rfl, fun _ => id⟩
  | stubEsp => exact ⟨rfl, fun _ => id⟩
  | stubEip => exact ⟨rfl, fun _ => id⟩
  | stubPrev => exact ⟨rfl, fun _ => id⟩
  | _ => exact absurd rfl ha

/-- How many steps of its own the service thread needs at most until it calls `do_softirq`, once
an iteration has begun with the counter non-zero. -/
inductive RunsWithin (s : TaskSys) : ℕ → Prop
  | idle (h : s.service = .idle) (hw : s.wakes ≠ 0) : RunsWithin s 4
  | testWakes (h : s.service = .testWakes) (hw : s.wakes ≠ 0) : RunsWithin s 3
  | reset (h : s.service = .reset) : RunsWithin s 2
  | softirq (h : s.service = .softirq) : RunsWithin s 1

theorem RunsWithin.not_create {s : TaskSys} {n : ℕ} (h : RunsWithin s n) (p : ℕ) :
    s.service ≠ .create p := by
  intro hp
  cases h with
  | idle h => cases h.symm.trans hp
  | testWakes h => cases h.symm.trans hp
  | reset h => cases h.symm.trans hp
  | softirq h => cases h.symm.trans hp

/-- A step of the service thread comes closer, one of somebody else changes nothing. -/
theorem runsWithin_step {s s' : TaskSys} {a : TaskAct} {n : ℕ} (h : RunsWithin s n)
    (hg : NoWrap s a) (hst : machine.step s a = some s') :
    s.softirqBy a = [.doSoftirq] ∨ (a = .service ∧ ∃ m, n = m + 1 ∧ RunsWithin s' m) ∨
      (a ≠ .service ∧ RunsWithin s' n) := by
  by_cases ha : a = .service
  · subst ha
    cases h with
    | softirq hpc => exact .inl (by simp only [softirqBy, hpc, ↓reduceIte])
    | idle hpc hw =>
      refine .inr (.inl ⟨rfl, 3, rfl, ?_⟩)
      obtain rfl : s' = s.goto .testWakes := service_eq_of_step hst (by simp [serviceStep, hpc])
      exact .testWakes rfl hw
    | testWakes hpc hw =>
      refine .inr (.inl ⟨rfl, 2, rfl, ?_⟩)
      obtain rfl : s' = s.goto .reset := service_eq_of_step hst (by
        simp only [serviceStep, hpc, ne_eq, hw, not_false_eq_true, ↓reduceIte])
      exact .reset rfl
    | reset hpc =>
      refine .inr (.inl ⟨rfl, 1, rfl, ?_⟩)
      obtain rfl : s' = { s with wakes := 0, service := .softirq } :=
        service_eq_of_step hst (by simp [serviceStep, hpc])
      exact .softirq rfl
  · refine .inr (.inr ⟨ha, ?_⟩)
    obtain ⟨hpc, hw⟩ := service_of_step (step_cases hst) ha h.not_create
    cases h with
    | idle h hw' => exact .idle (hpc.trans h) (hw hg hw')
    | testWakes h hw' => exact .testWakes (hpc.trans h) (hw hg hw')
    | reset h => exact .reset (hpc.trans h)
    | softirq h => exact .softirq (hpc.trans h)

/-- After that many steps of its own, and whatever the others do, it has called `do_softirq`. -/
theorem mem_softirqBy_of_runsWithin {s s' : TaskSys} {as : List TaskAct} {n : ℕ}
    (h : machine.Run NoWrap s as s') (hn : RunsWithin s n) (hc : n ≤ as.count .service) :
    .doSoftirq ∈ machine.collect softirqBy s as := by
  induction h generalizing n with
  | nil => cases hn <;> exact absurd hc (by simp)
  | @cons s s₁ _ a as hg hst _ ih =>
    simp only [Machine.collect, hst, Option.elim_some, List.mem_append]
    rcases runsWithin_step hn hg hst with hev | ⟨rfl, m, rfl, hm⟩ | ⟨ha, hn'⟩
    · exact .inl (hev ▸ List.mem_cons_self)
    · rw [List.count_cons_self] at hc
      exact .inr (ih hm (Nat.le_of_succ_le_succ hc))
    · rw [List.count_cons_of_ne ha] at hc
      exact .inr (ih hn' hc)

/-- **No softirq request is lost** as long as the counter does not wrap: each is followed by a
`do_softirq`, or the service thread has just reset the counter and calls `do_softirq` next, or the
counter is non-zero, and then the next iteration calls it. -/
theorem wakeup_answered {as : List TaskAct} {s : TaskSys}
    (h : machine.Run NoWrap machine.init as s) :
    (∀ l₁ l₂, machine.collect softirqBy machine.init as = l₁ ++ .wakeup :: l₂ →
      .doSoftirq ∈ l₂ ∨ s.service = .softirq ∨ s.wakes ≠ 0) ∧
    (s.service = .idle → s.wakes ≠ 0 → ∀ bs s', machine.Run NoWrap s bs s' →
      4 ≤ bs.count .service → .doSoftirq ∈ machine.collect softirqBy s bs) := by
  constructor
  · have h₀ : Answered [] machine.init := fun l₁ l₂ hl => absurd hl (by simp)
    have := h.history (fun _ _ _ _ hI hg hst => answered_step hI hg (step_cases hst)) h₀
    rwa [List.nil_append] at this
  · intro hpc hw bs s' hbs hc
    exact mem_softirqBy_of_runsWithin hbs (.idle hpc hw) hc

/-! ### Runs -/

/-- A call comes, the iteration resets the counter, another call comes, and `do_softirq` begins. -/
def lateWakeup : List TaskAct :=
  [.wakeup, .service, .service, .service, .wakeup, .service]

/-- `wakeup_answered` on this run: `do_softirq` began after both calls, and it will run again. -/
theorem wakeup_answered_lateWakeup :
    ∃ s, machine.exec machine.init lateWakeup = some s ∧ s.wakes = 1 ∧
      machine.collect softirqBy machine.init lateWakeup = [.wakeup, .wakeup, .doSoftirq] ∧
      ∀ l₁ l₂, machine.collect softirqBy machine.init lateWakeup = l₁ ++ .wakeup :: l₂ →
        .doSoftirq ∈ l₂ ∨ s.service = .softirq ∨ s.wakes ≠ 0 := by
  have h : machine.Run NoWrap machine.init lateWakeup _ :=
    .cons (fun _ => by decide) rfl <| .cons nofun rfl <| .cons nofun rfl <| .cons nofun rfl <|
      .cons (fun _ => by decide) rfl <| .cons nofun rfl <| .nil _
  exact ⟨_, h.exec_eq, by decide, by decide, (wakeup_answered h).1⟩

theorem exec_wakeups (s : TaskSys) (n : ℕ) :
    machine.exec s (List.replicate n .wakeup) = some { s with wakes := s.wakes + n } := by
  induction n generalizing s with
  | zero => simp [Machine.exec]
  | succ n ih =>
    have hst : machine.step s .wakeup = some { s with wakes := s.wakes + 1 } := rfl
    rw [List.replicate_succ, Machine.exec, hst, Option.bind_some, ih]
    rw [Nat.cast_succ, add_assoc, add_comm 1]

theorem collect_wakeups (s : TaskSys) (n : ℕ) :
    machine.collect softirqBy s (List.replicate n .wakeup) = List.replicate n .wakeup := by
  induction n generalizing s with
  | zero => rfl
  | succ n ih =>
    have hst : machine.step s .wakeup = some { s with wakes := s.wakes + 1 } := rfl
    rw [List.replicate_succ, Machine.collect, hst, Option.elim_some, ih]
    rfl

/-- `2 ^ 32` calls before the first iteration: the counter is zero, and no `do_softirq` follows. -/
theorem not_answered_wrapped :
    ∃ s, machine.exec machine.init (List.replicate (2 ^ 32) .wakeup) = some s ∧
      s.service = .idle ∧ ¬ ∀ l₁ l₂,
        machine.collect softirqBy machine.init (List.replicate (2 ^ 32) .wakeup) =
            l₁ ++ .wakeup :: l₂ → .doSoftirq ∈ l₂ ∨ s.wakes ≠ 0 := by
  refine ⟨_, exec_wakeups _ _, rfl, ?_⟩
  intro h
  rw [collect_wakeups] at h
  rcases h [] (List.replicate (2 ^ 32 - 1) .wakeup) (List.replicate_succ ..) with hmem | hne
  · exact absurd (List.eq_of_mem_replicate hmem) nofun
  · exact hne (by change (0 : ULONG) + ((2 ^ 32 : ℕ) : ULONG) = 0; decide)

end TaskSys

end LxApi32
