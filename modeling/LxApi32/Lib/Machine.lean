import Mathlib.Data.List.Basic
import Mathlib.Data.List.Perm.Basic
import Mathlib.Logic.Basic

/-!
# Executable state machines and their runs

A `Machine` is an initial state and a partial step function: `step s a = none` when the action
`a` cannot happen in `s`.  Interleavings of several threads are runs of one machine whose
actions say which thread moves and what its environment answers.

## Main definitions

* `Machine.exec` : the state after a list of actions, if all of them can happen.
* `Machine.Run G s as s'` : the actions `as` lead from `s` to `s'` and every one of them
  satisfies the guard `G` in the state in which it is taken.
* `Machine.collect f` : what a run shows to the observer `f`, in order.
* `Machine.Along G`, `Machine.Always P` : every action of an action list satisfies `G`, every
  state it passes through satisfies `P`.

## Main results

* `Machine.Run.invariant`, `Machine.Run.history` : the induction rules for a predicate on
  states, and for a relation between a state and what was observed on the way to it.
* `Machine.exec_history` : the latter, when the relation also says that a step can be taken.
* `Machine.Run.conserve`, `Machine.Run.conserve_perm` : a quantity that every step conserves is
  conserved by every run, in order or up to order.
* `Machine.Run.countP_le` : actions that use up a potential are not more than there is of it.
* `Machine.always_iff_along`, `Machine.always_iff_along_of` : when a predicate fails right after
  the first action outside the guard, it holds along a run exactly if the run keeps to the guard.
* `Machine.along_iff_along_of` : the same for a property of the actions.
* `Machine.exec_simulates` : related machines have related runs.
-/

namespace LxApi32

/-- A state machine with a partial step function. -/
structure Machine (S A : Type*) where
  /-- The initial state. -/
  init : S
  /-- The state after an action, `none` if the action cannot happen. -/
  step : S → A → Option S

namespace Machine

variable {S A O : Type*} (M : Machine S A)

/-- The state after a list of actions. -/
def exec : S → List A → Option S
  | s, [] => some s
  | s, a :: as => (M.step s a).bind fun s' => exec s' as

/-- `Run G s as s'`: the actions `as` lead from `s` to `s'`, each within the guard `G`. -/
inductive Run (G : S → A → Prop) : S → List A → S → Prop
  | nil (s : S) : Run G s [] s
  | cons {s s' s'' : S} {a : A} {as : List A} :
      G s a → M.step s a = some s' → Run G s' as s'' → Run G s (a :: as) s''

/-- What the observer `f` sees of a list of actions, in order. -/
def collect (f : S → A → List O) : S → List A → List O
  | _, [] => []
  | s, a :: as => f s a ++ ((M.step s a).elim [] fun s' => collect f s' as)

/-- Every action of the list satisfies `G` in the state in which it is taken. -/
def Along (G : S → A → Prop) : S → List A → Prop
  | _, [] => True
  | s, a :: as => G s a ∧ ∀ s', M.step s a = some s' → Along G s' as

/-- Every state that the list of actions passes through satisfies `P`. -/
def Always (P : S → Prop) : S → List A → Prop
  | s, [] => P s
  | s, a :: as => P s ∧ ∀ s', M.step s a = some s' → Always P s' as

/-- Evaluate a guard along a list of actions. -/
def check (g : S → A → Bool) : S → List A → Bool
  | _, [] => true
  | s, a :: as => g s a && (M.step s a).all fun s' => check g s' as

/-- The guard that excludes nothing. -/
def anyStep : S → A → Prop := fun _ _ => True

variable {M}

/-- The first action, and the others. -/
theorem exec_cons_eq_some {s s' : S} {a : A} {as : List A} :
    M.exec s (a :: as) = some s' ↔ ∃ s₁, M.step s a = some s₁ ∧ M.exec s₁ as = some s' :=
  Option.bind_eq_some_iff

theorem exec_append (s : S) (as bs : List A) :
    M.exec s (as ++ bs) = (M.exec s as).bind fun s' => M.exec s' bs := by
  induction as generalizing s with
  | nil => rfl
  | cons a as ih =>
    simp only [List.cons_append, exec]
    cases M.step s a with
    | none => rfl
    | some s' => exact ih s'

/-- If every action can happen, so can every list of actions. -/
theorem exists_exec (h : ∀ s a, ∃ s', M.step s a = some s') (s : S) (as : List A) :
    ∃ s', M.exec s as = some s' := by
  induction as generalizing s with
  | nil => exact ⟨s, rfl⟩
  | cons a as ih =>
    obtain ⟨s₁, hs⟩ := h s a
    obtain ⟨s', hs'⟩ := ih s₁
    exact ⟨s', by simpa only [exec, hs, Option.bind_some] using hs'⟩

/-- Executing one list after another. -/
theorem exec_trans {s s' s'' : S} {as bs : List A} (h : M.exec s as = some s')
    (h' : M.exec s' bs = some s'') : M.exec s (as ++ bs) = some s'' := by
  rw [exec_append, h]
  exact h'

theorem always_append {P : S → Prop} {s : S} {as bs : List A} (h : M.Always P s as)
    (h' : ∀ s', M.exec s as = some s' → M.Always P s' bs) : M.Always P s (as ++ bs) := by
  induction as generalizing s with
  | nil => exact h' s rfl
  | cons a as ih =>
    refine ⟨h.1, ?_⟩
    intro s₁ hs
    apply ih (h.2 s₁ hs)
    intro s' hs'
    apply h'
    simpa only [exec, hs, Option.bind_some] using hs'

/-- Observing less. -/
theorem collect_map {O' : Type*} (f : S → A → List O) (g : O → O') (s : S) (as : List A) :
    M.collect (fun s a => (f s a).map g) s as = (M.collect f s as).map g := by
  induction as generalizing s with
  | nil => rfl
  | cons a as ih =>
    simp only [collect, List.map_append]
    cases M.step s a with
    | none => rfl
    | some s' => exact congrArg _ (ih s')

/-- Observing each thing as several. -/
theorem collect_flatMap {O' : Type*} (f : S → A → List O) (g : O → List O') (s : S) (as : List A) :
    M.collect (fun s a => (f s a).flatMap g) s as = (M.collect f s as).flatMap g := by
  induction as generalizing s with
  | nil => rfl
  | cons a as ih =>
    simp only [collect, List.flatMap_append]
    cases M.step s a with
    | none => rfl
    | some s' => exact congrArg _ (ih s')

theorem collect_append (f : S → A → List O) {s s' : S} {as : List A} (bs : List A)
    (h : M.exec s as = some s') :
    M.collect f s (as ++ bs) = M.collect f s as ++ M.collect f s' bs := by
  induction as generalizing s with
  | nil => cases h; rfl
  | cons a as ih =>
    obtain ⟨s₁, hs, h₁⟩ := exec_cons_eq_some.1 h
    simp only [List.cons_append, collect, hs, Option.elim_some, ih h₁, List.append_assoc]

/-- Actions that the observer does not see. -/
theorem collect_eq_nil {f : S → A → List O} {as : List A} (h : ∀ a ∈ as, ∀ s, f s a = []) (s : S) :
    M.collect f s as = [] := by
  induction as generalizing s with
  | nil => rfl
  | cons a as ih =>
    rw [collect, h a List.mem_cons_self, List.nil_append]
    cases M.step s a with
    | none => rfl
    | some s' => exact ih (fun b hb => h b (List.mem_cons_of_mem _ hb)) s'

/-- What always holds holds in the end. -/
theorem Always.last {P : S → Prop} {s s' : S} {as : List A} (h : M.Always P s as)
    (hrun : M.exec s as = some s') : P s' := by
  induction as generalizing s with
  | nil => cases hrun; exact h
  | cons a as ih =>
    obtain ⟨s₁, hs, hrest⟩ := exec_cons_eq_some.1 hrun
    exact ih (h.2 s₁ hs) hrest

namespace Run

variable {G : S → A → Prop} {s s' : S} {as : List A}

theorem exec_eq (h : M.Run G s as s') : M.exec s as = some s' := by
  induction h with
  | nil => rfl
  | cons _ hst _ ih => simp only [exec, hst, Option.bind_some, ih]

theorem append {s'' : S} {bs : List A} (h : M.Run G s as s') (h' : M.Run G s' bs s'') :
    M.Run G s (as ++ bs) s'' := by
  induction h with
  | nil => exact h'
  | cons hg hst _ ih => exact .cons hg hst (ih h')

/-- **Invariant rule.**  What every guarded step preserves, every guarded run preserves. -/
theorem invariant {I : S → Prop} (h : M.Run G s as s')
    (hstep : ∀ s a s', I s → G s a → M.step s a = some s' → I s') (h₀ : I s) : I s' := by
  induction h with
  | nil => exact h₀
  | cons hg hst _ ih => exact ih (hstep _ _ _ h₀ hg hst)

/-- **History rule.**  `I l s` relates a state to the observations `l` made on the way to it. -/
theorem history {f : S → A → List O} {I : List O → S → Prop} (h : M.Run G s as s')
    (hstep : ∀ l s a s', I l s → G s a → M.step s a = some s' → I (l ++ f s a) s')
    {l : List O} (h₀ : I l s) : I (l ++ M.collect f s as) s' := by
  induction h generalizing l with
  | nil => simpa only [collect, List.append_nil] using h₀
  | cons hg hst _ ih =>
    have := ih (hstep _ _ _ _ h₀ hg hst)
    simpa only [collect, hst, Option.elim_some, List.append_assoc] using this

/-- **Conservation rule.**  If at every step what is stored and what comes in is what goes out
and what is stored then, the same holds of a whole run. -/
theorem conserve {I : S → Prop} {q : S → List O} {put get : S → A → List O}
    (h : M.Run G s as s')
    (hstep : ∀ s a s', I s → G s a → M.step s a = some s' →
      I s' ∧ q s ++ put s a = get s a ++ q s') (h₀ : I s) :
    q s ++ M.collect put s as = M.collect get s as ++ q s' := by
  induction h with
  | nil => simp only [collect, List.append_nil, List.nil_append]
  | cons hg hst _ ih =>
    obtain ⟨hI, hq⟩ := hstep _ _ _ h₀ hg hst
    simp only [collect, hst, Option.elim_some]
    rw [← List.append_assoc, hq, List.append_assoc, ih hI, List.append_assoc]

/-- The conservation rule up to order. -/
theorem conserve_perm {I : S → Prop} {q : S → List O} {put get : S → A → List O}
    (h : M.Run G s as s')
    (hstep : ∀ s a s', I s → G s a → M.step s a = some s' →
      I s' ∧ (q s ++ put s a).Perm (get s a ++ q s')) (h₀ : I s) :
    (q s ++ M.collect put s as).Perm (M.collect get s as ++ q s') := by
  induction h with
  | nil => simp only [collect, List.append_nil, List.nil_append, List.Perm.refl]
  | cons hg hst _ ih =>
    obtain ⟨hI, hq⟩ := hstep _ _ _ h₀ hg hst
    simp only [collect, hst, Option.elim_some]
    rw [← List.append_assoc, List.append_assoc (get _ _)]
    exact (hq.append_right _).trans (by
      rw [List.append_assoc]
      exact (ih hI).append_left _)

/-- **Potential rule.**  If the actions of a kind `p` use up the potential of the state, and only
those of a kind `q` add to it, `k` at most, there are not more of the first than is used up. -/
theorem countP_le {p q : A → Bool} {pot : S → ℕ} {k : ℕ} (h : M.Run G s as s')
    (hstep : ∀ s a s', G s a → M.step s a = some s' →
      (if p a then 1 else 0) + pot s' ≤ pot s + k * (if q a then 1 else 0)) :
    as.countP p + pot s' ≤ pot s + k * as.countP q := by
  induction h with
  | nil => simp
  | cons hg hst _ ih =>
    have hfirst := hstep _ _ _ hg hst
    rw [List.countP_cons, List.countP_cons, Nat.mul_add]
    omega

end Run

/-- **Progress rule.**  If the observations made so far allow every action of a list and an action
keeps this, the whole list can happen. -/
theorem exec_history {f : S → A → List O} {I : List O → S → Prop} {G : A → Prop} {s : S}
    {as : List A} {l : List O} (h₀ : I l s) (has : ∀ a ∈ as, G a)
    (hstep : ∀ l s a, I l s → G a → ∃ s', M.step s a = some s' ∧ I (l ++ f s a) s') :
    ∃ s', M.exec s as = some s' ∧ I (l ++ M.collect f s as) s' := by
  induction as generalizing l s with
  | nil => exact ⟨s, rfl, by rwa [collect, List.append_nil]⟩
  | cons a as ih =>
    obtain ⟨s₁, hs, hI⟩ := hstep l s a h₀ (has a List.mem_cons_self)
    obtain ⟨s', hexec, hI'⟩ := ih hI fun b hb => has b (List.mem_cons_of_mem _ hb)
    refine ⟨s', by rw [exec, hs]; exact hexec, ?_⟩
    rw [collect, hs]
    rwa [List.append_assoc] at hI'

/-- **Simulation rule.**  If related states take the same actions to related states, with the same
observations, they do so in every run. -/
theorem exec_simulates {T : Type*} {N : Machine T A} {f : S → A → List O} {g : T → A → List O}
    {R : S → T → Prop}
    (hstep : ∀ s t a, R s t → ∃ s' t', M.step s a = some s' ∧ N.step t a = some t' ∧ R s' t' ∧
      f s a = g t a)
    {s : S} {t : T} (h : R s t) (as : List A) :
    ∃ s' t', M.exec s as = some s' ∧ N.exec t as = some t' ∧ R s' t' ∧
      M.collect f s as = N.collect g t as := by
  induction as generalizing s t with
  | nil => exact ⟨s, t, rfl, rfl, h, rfl⟩
  | cons a as ih =>
    obtain ⟨s₁, t₁, hs, ht, hR, hobs⟩ := hstep s t a h
    obtain ⟨s', t', hs', ht', hR', hcollect⟩ := ih hR
    refine ⟨s', t', by rw [exec, hs]; exact hs', by rw [exec, ht]; exact ht', hR', ?_⟩
    rw [collect, collect, hs, ht, hobs]
    exact congrArg _ hcollect

/-- A run is guarded if all its actions are. -/
theorem run_of_along {G : S → A → Prop} {s s' : S} {as : List A} (h : M.exec s as = some s')
    (hG : M.Along G s as) : M.Run G s as s' := by
  induction as generalizing s with
  | nil => cases h; exact .nil _
  | cons a as ih =>
    obtain ⟨s₁, hs, h₁⟩ := exec_cons_eq_some.1 h
    exact .cons hG.1 hs (ih h₁ (hG.2 _ hs))

theorem along_anyStep (s : S) (as : List A) : M.Along anyStep s as := by
  induction as generalizing s with
  | nil => trivial
  | cons a as ih => exact ⟨trivial, fun s' _ => ih s'⟩

theorem run_anyStep_iff {s s' : S} {as : List A} :
    M.Run anyStep s as s' ↔ M.exec s as = some s' :=
  ⟨Run.exec_eq, fun h => run_of_along h (along_anyStep s as)⟩

theorem along_of_check {g : S → A → Bool} {G : S → A → Prop} (hg : ∀ s a, g s a = true → G s a)
    {s : S} {as : List A} (h : M.check g s as = true) : M.Along G s as := by
  induction as generalizing s with
  | nil => trivial
  | cons a as ih =>
    simp only [check, Bool.and_eq_true, Option.all_eq_true] at h
    exact ⟨hg _ _ h.1, fun s' hs => ih (h.2 s' hs)⟩

/-- If actions of a kind `H` preserve `I`, under which they satisfy `G`, they do so along a run. -/
theorem along_of_forall {H : A → Prop} {G : S → A → Prop} {I : S → Prop}
    (hG : ∀ s a, I s → H a → G s a)
    (hstep : ∀ s a s', I s → H a → M.step s a = some s' → I s')
    {s : S} {as : List A} (h₀ : I s) (hH : ∀ a ∈ as, H a) : M.Along G s as := by
  induction as generalizing s with
  | nil => trivial
  | cons a as ih =>
    obtain ⟨ha, has⟩ := List.forall_mem_cons.1 hH
    exact ⟨hG _ _ h₀ ha, fun s' hs => ih (hstep _ _ _ h₀ ha hs) has⟩

/-- A guarded run, by evaluation. -/
theorem run_of_check {g : S → A → Bool} {G : S → A → Prop} (hg : ∀ s a, g s a = true → G s a)
    {s s' : S} {as : List A} (h : M.exec s as = some s') (hc : M.check g s as = true) :
    M.Run G s as s' :=
  run_of_along h (along_of_check hg hc)

/-- **Exact guards.**  Let the guarded steps preserve the invariant `I`, which gives `P`, and
let `P` fail after every step from `I` that is outside the guard, as long as the actions satisfy
`H`.  Then `P` holds along such a run exactly if all its actions are guarded. -/
theorem always_iff_along_of {H G : S → A → Prop} {I P : S → Prop} (hP : ∀ s, I s → P s)
    (hstep : ∀ s a s', I s → H s a → G s a → M.step s a = some s' → I s')
    (hexact : ∀ s a s', I s → H s a → M.step s a = some s' → P s' → G s a)
    {s s' : S} {as : List A} (h₀ : I s) (h : M.exec s as = some s') (hH : M.Along H s as) :
    M.Always P s as ↔ M.Along G s as := by
  induction as generalizing s with
  | nil => exact ⟨fun _ => trivial, fun _ => hP _ h₀⟩
  | cons a as ih =>
    obtain ⟨s₁, hs, h₁⟩ := exec_cons_eq_some.1 h
    have hH₁ := hH.2 _ hs
    simp only [Always, Along, hs, Option.some.injEq, forall_eq']
    constructor
    · rintro ⟨-, hal⟩
      -- `P` holds after the first action, so that was guarded
      have hP₁ : P s₁ := by cases as <;> first | exact hal | exact hal.1
      have hg := hexact _ _ _ h₀ hH.1 hs hP₁
      exact ⟨hg, (ih (hstep _ _ _ h₀ hH.1 hg hs) h₁ hH₁).1 hal⟩
    · rintro ⟨hg, hal⟩
      exact ⟨hP _ h₀, (ih (hstep _ _ _ h₀ hH.1 hg hs) h₁ hH₁).2 hal⟩

/-- Exact guards for any actions. -/
theorem always_iff_along {G : S → A → Prop} {I P : S → Prop} (hP : ∀ s, I s → P s)
    (hstep : ∀ s a s', I s → G s a → M.step s a = some s' → I s')
    (hexact : ∀ s a s', I s → M.step s a = some s' → P s' → G s a)
    {s s' : S} {as : List A} (h₀ : I s) (h : M.exec s as = some s') :
    M.Always P s as ↔ M.Along G s as :=
  always_iff_along_of (H := anyStep) hP (fun _ _ _ hI _ => hstep _ _ _ hI)
    (fun _ _ _ hI _ => hexact _ _ _ hI) h₀ h (along_anyStep s as)

/-- **Guarded runs.**  If the guarded steps preserve the invariant `I`, which gives `P`, then `P`
holds along a run whose actions are guarded. -/
theorem always_of_along {G : S → A → Prop} {I P : S → Prop} (hP : ∀ s, I s → P s)
    (hstep : ∀ s a s', I s → G s a → M.step s a = some s' → I s') {s : S} {as : List A}
    (h₀ : I s) (h : M.Along G s as) : M.Always P s as := by
  induction as generalizing s with
  | nil => exact hP _ h₀
  | cons a as ih => exact ⟨hP _ h₀, fun s' hs => ih (hstep _ _ _ h₀ h.1 hs) (h.2 s' hs)⟩

/-- The first action of a guarded run, with the state it leads to. -/
theorem along_cons {G : S → A → Prop} {s s₁ : S} {a : A} {as : List A} (hg : G s a)
    (hs : M.step s a = some s₁) (h : M.Along G s₁ as) : M.Along G s (a :: as) :=
  ⟨hg, fun _ hs' => Option.some.inj (hs.symm.trans hs') ▸ h⟩

theorem along_congr {G Q : S → A → Prop} (h : ∀ s a, G s a ↔ Q s a) (s : S) (as : List A) :
    M.Along G s as ↔ M.Along Q s as := by
  induction as generalizing s with
  | nil => exact Iff.rfl
  | cons a as ih => exact and_congr (h s a) (forall_congr' fun s' => imp_congr_right fun _ => ih s')

/-- What an action within the guard does from a state with the invariant. -/
theorem along_of_along {G Q : S → A → Prop} {I : S → Prop} (hQ : ∀ s a, I s → G s a → Q s a)
    (hstep : ∀ s a s', I s → G s a → M.step s a = some s' → I s') {s : S} {as : List A}
    (h₀ : I s) (h : M.Along G s as) : M.Along Q s as := by
  induction as generalizing s with
  | nil => trivial
  | cons a as ih => exact ⟨hQ _ _ h₀ h.1, fun s' hs => ih (hstep _ _ _ h₀ h.1 hs) (h.2 s' hs)⟩

/-- **Exact guards for a property of the actions.**  If the guarded steps preserve `I`, and under
`I` the property `Q` of an action is the guard, it holds along a run exactly if the guard does. -/
theorem along_iff_along_of {H G Q : S → A → Prop} {I : S → Prop}
    (hstep : ∀ s a s', I s → H s a → G s a → M.step s a = some s' → I s')
    (hiff : ∀ s a s', I s → H s a → M.step s a = some s' → (Q s a ↔ G s a))
    {s s' : S} {as : List A} (h₀ : I s) (h : M.exec s as = some s') (hH : M.Along H s as) :
    M.Along Q s as ↔ M.Along G s as := by
  induction as generalizing s with
  | nil => exact Iff.rfl
  | cons a as ih =>
    obtain ⟨s₁, hs, h₁⟩ := exec_cons_eq_some.1 h
    simp only [Along, hs, Option.some.injEq, forall_eq']
    rw [hiff _ _ _ h₀ hH.1 hs]
    exact and_congr_right fun hg => ih (hstep _ _ _ h₀ hH.1 hg hs) h₁ (hH.2 _ hs)

end Machine

end LxApi32
