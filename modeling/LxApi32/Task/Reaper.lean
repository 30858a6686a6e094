import LxApi32.Lib.Machine
import Mathlib.Data.List.Basic
import Mathlib.Data.List.Nodup
import Mathlib.Data.List.Perm.Basic
import Mathlib.Logic.Function.Basic

/-!
# Reaping tasks that have exited

A task that has exited moves its entry from `lx_current_list` to `lx_exit_list`, and then leaves its
stack, which is the block of its `thread_info`, and ends.  Every call of `LX_switch_to` takes the
first entry out of `lx_exit_list`, if it finds one, and frees its `thread_info`, its task and the
entry itself.

The list is tested before `lx_current_lock` is taken: if two calls find the last entry, the second
takes the head of the list for an entry.  And the entry is in the list before its task has left the
stack.

* `Reaper.always_reaped_iff` : in a run every entry that is moved is taken out and freed once, the
  head of the list is never taken for one, and the stack of no task is freed while it runs on it,
  exactly if every call that has found an entry still finds one when it has the lock, and frees the
  `thread_info` of an entry only after its task has left the stack.

Entry `i` is that of task `i`.  A section under `lx_current_lock` is one step.  With the head of the
list taken out of itself the run ends.
-/

namespace LxApi32

/-- What `LX_free_unused_task_structs` frees of an entry, in this order. -/
inductive ReapBlock
  /-- `thread_info`, the stack -/
  | threadInfo
  /-- `task` -/
  | task
  /-- The entry. -/
  | entry
  deriving DecidableEq, Repr

/-- Its place in the order. -/
def ReapBlock.rank : ReapBlock → ℕ
  | .threadInfo => 0
  | .task => 1
  | .entry => 2

/-- Where a task is in `LX_switch_to`; `ex` tells whether it is dead. -/
inductive SwitchPc
  /-- Not in `LX_switch_to`. -/
  | outside
  /-- Before the test of `lx_exit_list`. -/
  | test (ex : Bool)
  /-- It has found an entry, and is going to take one. -/
  | take (ex : Bool)
  /-- It is going to free a block of an entry. -/
  | free (b : ReapBlock) (e : ℕ) (ex : Bool)
  /-- Behind `LX_free_unused_task_structs`. -/
  | after (ex : Bool)
  /-- In `LX_DoTaskExit`. -/
  | doTaskExit
  /-- In `LXA_DoTaskExit`, on its own stack. -/
  | onStack
  /-- On the 16-bit stack. -/
  | left
  /-- `VDHEXITTHREAD` has ended it. -/
  | gone
  deriving DecidableEq, Repr

namespace SwitchPc

/-- The task does not run on its stack any more. -/
def hasLeft : SwitchPc → Bool
  | .left | .gone => true
  | _ => false

/-- The task is going to free a block of an entry. -/
def Pending (b : ReapBlock) (e : ℕ) : SwitchPc → Prop
  | .free b' e' _ => e' = e ∧ b'.rank ≤ b.rank
  | _ => False

end SwitchPc

/-- The state. -/
structure Reaper where
  /-- Where the tasks are. -/
  pc : ℕ → SwitchPc
  /-- `LXC_FLAG_TSK_REGULAR_EXIT` -/
  regularExit : ℕ → Bool
  /-- `lx_current_list` -/
  currentList : List ℕ
  /-- `lx_exit_list` -/
  exitList : List ℕ
  /-- The head of `lx_exit_list` has been taken for an entry. -/
  headTaken : Bool
  /-- The entries that have been moved to `lx_exit_list`. -/
  moved : List ℕ
  /-- The entries that have been taken out of it. -/
  taken : List ℕ
  /-- The blocks that have been freed, by entry. -/
  freed : ReapBlock → List ℕ

/-- What happens. -/
inductive ReapAct
  /-- A new task gets an entry. -/
  | add (i : ℕ)
  /-- `LX_set_task_regular_exit` -/
  | setRegularExit (i : ℕ)
  /-- A task calls `LX_switch_to`, and is run again if that has blocked it. -/
  | switchTo (i : ℕ) (ex : Bool)
  /-- A task takes its next step. -/
  | step (i : ℕ)
  deriving DecidableEq, Repr

namespace Reaper

/-- A task moves on. -/
def setPc (s : Reaper) (i : ℕ) (p : SwitchPc) : Reaper := { s with pc := Function.update s.pc i p }

/-- The entry of a task is moved to `lx_exit_list`. -/
def moveEntry (s : Reaper) (i : ℕ) : Reaper :=
  if i ∈ s.currentList then
    { s with
      currentList := s.currentList.erase i
      exitList := i :: s.exitList
      moved := i :: s.moved }
  else s

/-- A block is freed. -/
def kfree (s : Reaper) (b : ReapBlock) (e : ℕ) : Reaper :=
  { s with freed := Function.update s.freed b (e :: s.freed b) }

/-- The next step of a task. -/
def taskStep (s : Reaper) (i : ℕ) : Option Reaper :=
  match s.pc i with
  | .outside | .gone => none
  | .test ex => some (s.setPc i (if s.exitList = [] then .after ex else .take ex))
  | .take ex =>
    match s.exitList with
    | [] => some { s with headTaken := true }
    | e :: rest =>
      some ({ s with exitList := rest, taken := e :: s.taken }.setPc i (.free .threadInfo e ex))
  | .free .threadInfo e ex => some ((s.kfree .threadInfo e).setPc i (.free .task e ex))
  | .free .task e ex => some ((s.kfree .task e).setPc i (.free .entry e ex))
  | .free .entry e ex => some ((s.kfree .entry e).setPc i (.after ex))
  | .after ex =>
    some (s.setPc i
      (if ex = true ∧ i ∈ s.currentList ∧ s.regularExit i = true then .doTaskExit else .outside))
  | .doTaskExit => some ((s.moveEntry i).setPc i .onStack)
  | .onStack => some (s.setPc i .left)
  | .left => some (s.setPc i .gone)

/-- The step function. -/
def step (s : Reaper) (a : ReapAct) : Option Reaper :=
  if s.headTaken then none
  else
    match a with
    | .add i =>
      if i ∈ s.currentList ∨ i ∈ s.moved then none
      else some { s with currentList := i :: s.currentList }
    | .setRegularExit i => some { s with regularExit := Function.update s.regularExit i true }
    | .switchTo i ex => if s.pc i = .outside then some (s.setPc i (.test ex)) else none
    | .step i => s.taskStep i

/-- No task has an entry. -/
def initial : Reaper := ⟨fun _ => .outside, fun _ => false, [], [], false, [], [], fun _ => []⟩

/-- The machine of the tasks. -/
def machine : Machine Reaper ReapAct := ⟨initial, step⟩

/-- A task is going to free a block of an entry. -/
def Pending (s : Reaper) (b : ReapBlock) (e : ℕ) : Prop := ∃ i, (s.pc i).Pending b e

/-- Every entry is moved once at most, and is then in the list or has been taken out; of every one
that has been taken out each block is freed once. -/
structure FreedOnce (s : Reaper) : Prop where
  /-- No entry is moved twice. -/
  moved_nodup : s.moved.Nodup
  /-- What is moved is in the list or has been taken out. -/
  moved_perm : s.moved.Perm (s.taken ++ s.exitList)
  /-- No block is freed twice. -/
  freed_nodup : ∀ b, (s.freed b).Nodup
  /-- Exactly the blocks of those that have been taken out are freed, or are going to be. -/
  freed_or_pending : ∀ b e, e ∈ s.freed b ∨ s.Pending b e ↔ e ∈ s.taken

/-- What reaping has to do. -/
structure Reaped (s : Reaper) : Prop where
  /-- Every entry is freed once. -/
  once : s.FreedOnce
  /-- The head of the list is no entry. -/
  head : s.headTaken = false
  /-- No task runs on a stack that is freed. -/
  left : ∀ e ∈ s.freed .threadInfo, (s.pc e).hasLeft = true

/-- A call that is going to take an entry finds one, and the stack that a call is going to free has
been left. -/
def Orderly (s : Reaper) (a : ReapAct) : Prop :=
  ∀ i, a = .step i →
    (∀ ex, s.pc i = .take ex → s.exitList ≠ []) ∧
    (∀ e ex, s.pc i = .free .threadInfo e ex → (s.pc e).hasLeft = true)

/-- What every orderly step preserves. -/
structure Inv (s : Reaper) : Prop extends s.Reaped where
  /-- An entry is not in `lx_current_list` again. -/
  nodup : (s.moved ++ s.currentList).Nodup
  /-- What is going to be freed has not been freed. -/
  not_freed : ∀ b e, s.Pending b e → e ∉ s.freed b
  /-- By one task. -/
  unique : ∀ e i j, (s.pc i).Pending .entry e → (s.pc j).Pending .entry e → i = j

variable {s s' : Reaper} {a : ReapAct} {i e e' : ℕ} {b b' : ReapBlock} {p : SwitchPc} {ex : Bool}

theorem inv_initial : Inv initial where
  once := ⟨List.nodup_nil, .refl _, fun _ => List.nodup_nil, fun b e => by
    simp [initial, Pending, SwitchPc.Pending]⟩
  head := rfl
  left _ he := absurd he List.not_mem_nil
  nodup := List.nodup_nil
  not_freed b e h := List.not_mem_nil
  unique e i j h := by cases h

/-! ### What is going to be freed -/

theorem rank_inj (h : b.rank = b'.rank) : b = b' := by
  cases b <;> cases b' <;> first | rfl | cases h

/-- What is going to be freed of an entry includes the entry itself. -/
theorem pending_entry (h : p.Pending b e) : p.Pending .entry e := by
  cases p with
  | free b' e' ex => exact ⟨h.1, by cases b' <;> decide⟩
  | _ => exact h.elim

theorem pending_free : (SwitchPc.free b e ex).Pending b' e' ↔ e = e' ∧ b.rank ≤ b'.rank := Iff.rfl

/-- One task, and the others. -/
theorem pending_iff (i : ℕ) :
    s.Pending b e ↔ (s.pc i).Pending b e ∨ ∃ j, j ≠ i ∧ (s.pc j).Pending b e := by
  constructor
  · rintro ⟨j, hj⟩
    by_cases hji : j = i
    · exact .inl (hji ▸ hj)
    · exact .inr ⟨j, hji, hj⟩
  · rintro (hi | ⟨j, -, hj⟩)
    · exact ⟨i, hi⟩
    · exact ⟨j, hj⟩

theorem pc_setPc_self : (s.setPc i p).pc i = p := Function.update_self ..

theorem pc_setPc_ne {j : ℕ} (h : j ≠ i) : (s.setPc i p).pc j = s.pc j := Function.update_of_ne h ..

theorem pending_setPc :
    (s.setPc i p).Pending b e ↔ p.Pending b e ∨ ∃ j, j ≠ i ∧ (s.pc j).Pending b e := by
  rw [pending_iff i, pc_setPc_self]
  refine or_congr_right (exists_congr fun j => and_congr_right fun hj => ?_)
  rw [pc_setPc_ne hj]

/-- The one that is going to free an entry is alone with that. -/
theorem unique_setPc (h : ∀ e i j, (s.pc i).Pending .entry e → (s.pc j).Pending .entry e → i = j)
    (hp : ∀ e, p.Pending .entry e → ∀ j, j ≠ i → ¬ (s.pc j).Pending .entry e) (e k j : ℕ)
    (hk : ((s.setPc i p).pc k).Pending .entry e) (hj : ((s.setPc i p).pc j).Pending .entry e) :
    k = j := by
  by_cases hki : k = i
  · by_cases hji : j = i
    · rw [hki, hji]
    · rw [hki, pc_setPc_self] at hk
      rw [pc_setPc_ne hji] at hj
      exact absurd hj (hp e hk j hji)
  · rw [pc_setPc_ne hki] at hk
    by_cases hji : j = i
    · rw [hji, pc_setPc_self] at hj
      exact absurd hk (hp e hj k hki)
    · rw [pc_setPc_ne hji] at hj
      exact h e k j hk hj

/-- Who has left its stack is not the one that moves, if that is still on its own. -/
theorem hasLeft_setPc (hi : (s.pc i).hasLeft = false) (he : (s.pc e).hasLeft = true) :
    ((s.setPc i p).pc e).hasLeft = true := by
  have hne : e ≠ i := by
    rintro rfl
    cases hi.symm.trans he
  rwa [pc_setPc_ne hne]

/-! ### The steps -/

/-- A task moves on and has nothing to free, before and after. -/
theorem Inv.setPc {q : SwitchPc} (hi : s.Inv) (hpc : s.pc i = q) (hold : ∀ b e, ¬ q.Pending b e)
    (hnew : ∀ b e, ¬ p.Pending b e) (hleft : q.hasLeft = true → p.hasLeft = true) :
    (s.setPc i p).Inv := by
  subst hpc
  have hpending : ∀ b e, (s.setPc i p).Pending b e ↔ s.Pending b e := fun b e => by
    rw [pending_setPc, pending_iff i]
    exact or_congr_left (iff_of_false (hnew b e) (hold b e))
  refine ⟨⟨⟨hi.once.moved_nodup, hi.once.moved_perm, hi.once.freed_nodup, fun b e => ?_⟩, hi.head,
    fun e he => ?_⟩, hi.nodup, fun b e h => hi.not_freed b e ((hpending b e).1 h), ?_⟩
  · rw [hpending]
    exact hi.once.freed_or_pending b e
  · by_cases hei : e = i
    · rw [hei, pc_setPc_self]
      exact hleft (hei ▸ hi.left e he)
    · rw [pc_setPc_ne hei]
      exact hi.left e he
  · exact unique_setPc hi.unique fun e he => absurd he (hnew _ e)

/-- An entry gets into `lx_current_list`. -/
theorem Inv.add (hi : s.Inv) (h : ¬ (i ∈ s.currentList ∨ i ∈ s.moved)) :
    Inv { s with currentList := i :: s.currentList } := by
  push Not at h
  refine ⟨⟨⟨hi.once.moved_nodup, hi.once.moved_perm, hi.once.freed_nodup,
    hi.once.freed_or_pending⟩, hi.head, hi.left⟩, ?_, hi.not_freed, hi.unique⟩
  refine List.nodup_middle.2 (List.nodup_cons.2 ⟨?_, hi.nodup⟩)
  rw [List.mem_append]
  exact fun hmem => hmem.elim h.2 h.1

/-- An entry is moved. -/
theorem Inv.moveEntry (hi : s.Inv) : (s.moveEntry i).Inv := by
  unfold Reaper.moveEntry
  split_ifs with hmem
  · have hperm : (i :: s.moved ++ s.currentList.erase i).Perm (s.moved ++ s.currentList) :=
      List.perm_middle.symm.trans ((List.perm_cons_erase hmem).symm.append_left _)
    have hnodup := hperm.nodup_iff.2 hi.nodup
    refine ⟨⟨⟨(List.nodup_append.1 hnodup).1, ?_, hi.once.freed_nodup, hi.once.freed_or_pending⟩,
      hi.head, hi.left⟩, hnodup, hi.not_freed, hi.unique⟩
    exact (hi.once.moved_perm.cons i).trans List.perm_middle.symm
  · exact hi

/-- An entry is taken out of `lx_exit_list`. -/
theorem Inv.take {rest : List ℕ} (hi : s.Inv) (hpc : s.pc i = .take ex)
    (hlist : s.exitList = e :: rest) :
    ({ s with exitList := rest, taken := e :: s.taken }.setPc i (.free .threadInfo e ex)).Inv := by
  have hperm : s.moved.Perm (e :: s.taken ++ rest) := by
    have hp := hi.once.moved_perm
    rw [hlist] at hp
    exact hp.trans List.perm_middle
  have hnew : e ∉ s.taken := fun hmem =>
    (List.nodup_cons.1 (hperm.nodup_iff.1 hi.once.moved_nodup)).1 (List.mem_append_left _ hmem)
  -- nobody has had to do with the entry before
  have hnone : ∀ b, ¬ (e ∈ s.freed b ∨ s.Pending b e) := fun b h =>
    hnew ((hi.once.freed_or_pending b e).1 h)
  have hold : ∀ b e', s.Pending b e' ↔ ∃ j, j ≠ i ∧ (s.pc j).Pending b e' := fun b e' => by
    rw [pending_iff i, hpc]
    exact or_iff_right id
  have hpending : ∀ b e', ({ s with exitList := rest, taken := e :: s.taken }.setPc i
      (.free .threadInfo e ex)).Pending b e' ↔ e' = e ∨ s.Pending b e' := fun b e' => by
    rw [pending_setPc, hold, pending_free]
    exact or_congr_left ⟨fun h => h.1.symm, fun h => ⟨h.symm, Nat.zero_le _⟩⟩
  refine ⟨⟨⟨hi.once.moved_nodup, hperm, hi.once.freed_nodup, fun b e' => ?_⟩, hi.head,
    fun e' he' => ?_⟩, hi.nodup, fun b e' h => ?_, ?_⟩
  · rw [hpending, or_left_comm]
    exact (or_congr_right (hi.once.freed_or_pending b e')).trans List.mem_cons.symm
  · exact hasLeft_setPc (s := { s with exitList := rest, taken := e :: s.taken })
      (by rw [hpc]; rfl) (hi.left e' he')
  · obtain rfl | h := (hpending b e').1 h
    · exact fun hmem => hnone b (.inl hmem)
    · exact hi.not_freed b e' h
  · refine unique_setPc hi.unique fun e' he' j _ hj => ?_
    obtain rfl : e = e' := he'.1
    exact hnone _ (.inr ⟨j, hj⟩)

theorem freed_kfree_self : (s.kfree b e).freed b = e :: s.freed b := Function.update_self ..

theorem freed_kfree_ne (h : b' ≠ b) : (s.kfree b e).freed b' = s.freed b' :=
  Function.update_of_ne h ..

/-- What is freed, and what was freed before. -/
theorem mem_freed_kfree :
    e' ∈ (s.kfree b e).freed b' ↔ b' = b ∧ e' = e ∨ e' ∈ s.freed b' := by
  by_cases hb : b' = b
  · subst hb
    rw [freed_kfree_self, List.mem_cons]
    exact or_congr_left (and_iff_right rfl).symm
  · rw [freed_kfree_ne hb]
    exact (or_iff_right fun h => hb h.1).symm

/-- No other task is going to free anything of an entry of which one task frees a block. -/
theorem Inv.not_pending_of_ne (hi : s.Inv) (hpc : s.pc i = .free b e ex) {j : ℕ} (hj : j ≠ i) :
    ¬ (s.pc j).Pending b' e := by
  intro h
  have hmine : (s.pc i).Pending .entry e := by
    rw [hpc]
    exact ⟨rfl, by cases b <;> decide⟩
  exact hj (hi.unique e j i (pending_entry h) hmine)

/-- What is still going to be freed when a block is freed. -/
theorem Inv.pending_kfree (hi : s.Inv) (hpc : s.pc i = .free b e ex)
    (hp : ∀ b' e', p.Pending b' e' ↔ e = e' ∧ b.rank < b'.rank) :
    ((s.kfree b e).setPc i p).Pending b' e' ↔ s.Pending b' e' ∧ ¬ (b' = b ∧ e' = e) := by
  have hothers (j : ℕ) : (s.kfree b e).pc j = s.pc j := rfl
  rw [pending_setPc, pending_iff i, hp, hpc, pending_free]
  simp only [hothers]
  constructor
  · rintro (⟨rfl, hlt⟩ | ⟨j, hj, hpj⟩)
    · exact ⟨.inl ⟨rfl, Nat.le_of_lt hlt⟩, fun heq => Nat.lt_irrefl _ (heq.1 ▸ hlt)⟩
    · refine ⟨.inr ⟨j, hj, hpj⟩, ?_⟩
      rintro ⟨-, rfl⟩
      exact hi.not_pending_of_ne hpc hj hpj
  · rintro ⟨⟨rfl, hle⟩ | hpj, hne⟩
    · obtain hlt | heq := Nat.lt_or_eq_of_le hle
      · exact .inl ⟨rfl, hlt⟩
      · exact absurd ⟨(rank_inj heq).symm, rfl⟩ hne
    · exact .inr hpj

/-- A block is freed. -/
theorem Inv.kfree (hi : s.Inv) (hpc : s.pc i = .free b e ex)
    (hleft : b = .threadInfo → (s.pc e).hasLeft = true)
    (hp : ∀ b' e', p.Pending b' e' ↔ e = e' ∧ b.rank < b'.rank) :
    ((s.kfree b e).setPc i p).Inv := by
  have hpend : s.Pending b e := by
    refine ⟨i, ?_⟩
    rw [hpc]
    exact ⟨rfl, Nat.le_refl _⟩
  have hfreed (b' : ReapBlock) : ((s.kfree b e).setPc i p).freed b' = (s.kfree b e).freed b' := rfl
  refine ⟨⟨⟨hi.once.moved_nodup, hi.once.moved_perm, fun b' => ?_, fun b' e' => ?_⟩, hi.head,
    fun e' he' => ?_⟩, hi.nodup, fun b' e' h => ?_, ?_⟩
  · by_cases hb : b' = b
    · subst hb
      exact freed_kfree_self ▸ List.nodup_cons.2 ⟨hi.not_freed _ e hpend, hi.once.freed_nodup _⟩
    · exact (freed_kfree_ne (s := s) (e := e) hb).symm ▸ hi.once.freed_nodup b'
  · have hbefore := hi.once.freed_or_pending b' e'
    rw [hi.pending_kfree hpc hp, hfreed, mem_freed_kfree]
    refine Iff.trans ?_ hbefore
    by_cases hsame : b' = b ∧ e' = e
    · obtain ⟨rfl, rfl⟩ := hsame
      exact iff_of_true (.inl (.inl ⟨rfl, rfl⟩)) (.inr hpend)
    · simp only [hsame, false_or, not_false_eq_true, and_true]
  · have hstack : (s.pc i).hasLeft = false := by rw [hpc]; rfl
    obtain ⟨hb, rfl⟩ | h := mem_freed_kfree.1 he'
    · exact hasLeft_setPc (s := s.kfree b e') hstack (hleft hb.symm)
    · exact hasLeft_setPc (s := s.kfree b e) hstack (hi.left e' h)
  · obtain ⟨hbefore, hne⟩ := (hi.pending_kfree hpc hp).1 h
    rw [hfreed, mem_freed_kfree]
    exact fun hmem => hmem.elim hne (hi.not_freed b' e' hbefore)
  · refine unique_setPc hi.unique fun e' he' j hj => ?_
    obtain rfl : e = e' := ((hp _ _).1 he').1
    exact hi.not_pending_of_ne hpc hj

theorem inv_taskStep (hi : s.Inv) (hg : s.Orderly (.step i)) (h : s.taskStep i = some s') :
    s'.Inv := by
  obtain ⟨htake, hfree⟩ := hg i rfl
  unfold taskStep at h
  cases hpc : s.pc i with
  | outside => rw [hpc] at h; cases h
  | gone => rw [hpc] at h; cases h
  | test ex =>
    rw [hpc] at h
    cases h
    refine hi.setPc hpc (fun _ _ => id) ?_ nofun
    split_ifs <;> exact fun _ _ => id
  | take ex =>
    rw [hpc] at h
    cases hlist : s.exitList with
    | nil => exact absurd hlist (htake ex hpc)
    | cons e rest =>
      simp only [hlist] at h
      cases h
      exact hi.take hpc hlist
  | free b e ex =>
    rw [hpc] at h
    cases b with
    | threadInfo =>
      cases h
      refine hi.kfree hpc (fun _ => hfree e ex hpc) fun b' e' => and_congr_right fun _ => ?_
      cases b' <;> decide
    | task =>
      cases h
      refine hi.kfree hpc nofun fun b' e' => and_congr_right fun _ => ?_
      cases b' <;> decide
    | entry =>
      cases h
      refine hi.kfree hpc nofun fun b' e' => iff_of_false id fun hrank => ?_
      revert hrank
      cases b' <;> simp [ReapBlock.rank]
  | after ex =>
    rw [hpc] at h
    cases h
    refine hi.setPc hpc (fun _ _ => id) ?_ nofun
    split_ifs <;> exact fun _ _ => id
  | doTaskExit =>
    rw [hpc] at h
    cases h
    have hsame : (s.moveEntry i).pc i = .doTaskExit := by
      unfold moveEntry
      split_ifs <;> exact hpc
    exact hi.moveEntry.setPc hsame (fun _ _ => id) (fun _ _ => id) nofun
  | onStack =>
    rw [hpc] at h
    cases h
    exact hi.setPc hpc (fun _ _ => id) (fun _ _ => id) fun _ => rfl
  | left =>
    rw [hpc] at h
    cases h
    exact hi.setPc hpc (fun _ _ => id) (fun _ _ => id) fun _ => rfl

theorem inv_step (hi : s.Inv) (hg : s.Orderly a) (h : s.step a = some s') : s'.Inv := by
  unfold step at h
  rw [if_neg (by rw [hi.head]; exact Bool.false_ne_true)] at h
  cases a with
  | add i =>
    simp only at h
    split_ifs at h with hmem
    cases h
    exact hi.add hmem
  | setRegularExit i =>
    cases h
    exact ⟨⟨⟨hi.once.moved_nodup, hi.once.moved_perm, hi.once.freed_nodup,
      hi.once.freed_or_pending⟩, hi.head, hi.left⟩, hi.nodup, hi.not_freed, hi.unique⟩
  | switchTo i ex =>
    simp only at h
    split_ifs at h with hpc
    cases h
    exact hi.setPc hpc (fun _ _ => id) (fun _ _ => id) nofun
  | step i => exact inv_taskStep hi hg h

/-- Outside the condition the head of the list is taken, or a stack is freed under its task. -/
theorem orderly_of_reaped (hi : s.Inv) (h : s.step a = some s') (hr : s'.Reaped) : s.Orderly a := by
  rintro i rfl
  unfold step at h
  rw [if_neg (by rw [hi.head]; exact Bool.false_ne_true)] at h
  constructor
  · intro ex hpc hlist
    simp only [taskStep, hpc, hlist, Option.some.injEq] at h
    subst h
    cases hr.head
  · intro e ex hpc
    simp only [taskStep, hpc, Option.some.injEq] at h
    subst h
    have hleft := hr.left e (by rw [setPc, freed_kfree_self]; exact List.mem_cons_self)
    -- the one that frees the stack is not the one that has run on it
    have hne : e ≠ i := by
      rintro rfl
      rw [pc_setPc_self] at hleft
      cases hleft
    rwa [pc_setPc_ne hne] at hleft

/-- **The exact condition.**  In a run every entry that is moved is taken out and freed once, the
head of the list is never taken for one, and no stack is freed while its task runs on it, if and
only if every call that has found an entry finds one when it has the lock, and the stacks are freed
after their tasks have left them. -/
theorem always_reaped_iff {as : List ReapAct} {s : Reaper} (h : machine.exec initial as = some s) :
    machine.Always Reaped initial as ↔ machine.Along Orderly initial as :=
  Machine.always_iff_along (fun _ hi => hi.toReaped) (fun _ _ _ hi hg hs => inv_step hi hg hs)
    (fun _ _ _ hi hs hr => orderly_of_reaped hi hs hr) inv_initial h

/-- An action that is orderly, by evaluation. -/
def checkOrderly (s : Reaper) : ReapAct → Bool
  | .step i =>
    match s.pc i with
    | .take _ => !s.exitList.isEmpty
    | .free .threadInfo e _ => (s.pc e).hasLeft
    | _ => true
  | _ => true

theorem orderly_of_checkOrderly (h : s.checkOrderly a = true) : s.Orderly a := by
  rintro i rfl
  constructor
  · intro ex hpc hlist
    simp [checkOrderly, hpc, hlist] at h
  · intro e ex hpc
    simpa [checkOrderly, hpc] using h

/-- Task `0` exits, and its entry is in `lx_exit_list`. -/
def exits : List ReapAct :=
  [.add 0, .add 1, .setRegularExit 0, .switchTo 0 true, .step 0, .step 0, .step 0]

/-- Task `0` ends, and is reaped by the next call. -/
theorem always_reaped_exits :
    machine.Always Reaped initial (exits ++ [.step 0, .step 0, .switchTo 1 false, .step 1, .step 1,
      .step 1, .step 1, .step 1, .step 1]) :=
  (always_reaped_iff rfl).2
    (Machine.along_of_check (fun _ _ => orderly_of_checkOrderly) (by decide))

/-- The next call comes before task `0` has left its stack. -/
theorem not_always_reaped_onStack :
    let as := exits ++ [.switchTo 1 false, .step 1, .step 1, .step 1]
    ∃ s, machine.exec initial as = some s ∧ ¬ machine.Always Reaped initial as := by
  refine ⟨_, rfl, fun hal => ?_⟩
  exact absurd ((hal.last rfl).left 0 (by decide)) (by decide)

end Reaper

end LxApi32
