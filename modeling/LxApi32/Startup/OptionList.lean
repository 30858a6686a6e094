import LxApi32.Lib.CString
import LxApi32.Lib.Machine
import Mathlib.Data.List.Induction
import Mathlib.Data.List.Nodup

/-!
# The options of modules

`LX_add_or_replace_option` gets an entry of its own for each option of a script, and puts it into
`lx_options_list` or takes over its value.

* `replaceLoop_of_forall`, `replaceLoop_of_exists` : the loop over the list.
* `exec_eq_optionState` : what the list is after calls with different options.
* `optionMap_iff` : when the list is a map.

A function has no result where it would use an entry that was freed.
-/

namespace LxApi32

open CString

/-- `struct lx_module_option` -/
structure LxModuleOption where
  /-- `module_name` -/
  moduleName : Bytes
  /-- `option_name` -/
  optionName : Bytes
  /-- `option_val` -/
  optionVal : Bytes
  deriving DecidableEq, Repr

/-- The entries that are allocated. -/
abbrev OptionPool := ℕ → Option LxModuleOption

/-- The memory of the options. -/
structure LxOptions where
  /-- The entries that are allocated. -/
  pool : OptionPool
  /-- `lx_options_list` -/
  list : List ℕ
  /-- The entry that the next `kmalloc` returns. -/
  next : ℕ

/-- The loop of `LX_add_or_replace_option`. -/
def replaceLoop (pop : ℕ) : List ℕ → OptionPool → Option OptionPool
  | [], pool => some pool
  | a :: as, pool => do
    let o ← pool pop
    let p ← pool a
    if strcmp o.moduleName p.moduleName = 0 ∧ strcmp o.optionName p.optionName = 0 then
      let pool := Function.update pool a
        (some { p with optionVal := strcpy p.optionVal o.optionVal })
      -- `kfree(pop)`, and on to the next entry
      replaceLoop pop as (Function.update pool pop none)
    else replaceLoop pop as pool

/-- `list_add(&pop->list,&lx_options_list)` -/
def listAddOption (pop : ℕ) (s : LxOptions) : Option LxOptions := do
  let _ ← s.pool pop
  if ∀ a ∈ s.list.head?, s.pool a ≠ none then some { s with list := pop :: s.list } else none

/-- `LX_add_or_replace_option` -/
def lxAddOrReplaceOption (s : LxOptions) (pop : ℕ) : Option LxOptions := do
  let pool ← replaceLoop pop s.list s.pool
  listAddOption pop { s with pool }

/-- The calls of `LX_add_or_replace_option`, each with an entry that was just allocated. -/
def optionMachine : Machine LxOptions LxModuleOption where
  init := ⟨fun _ => none, [], 0⟩
  step s o := lxAddOrReplaceOption
    { s with pool := Function.update s.pool s.next (some o), next := s.next + 1 } s.next

/-! ### The list as a map -/

/-- The key of an option. -/
def LxModuleOption.key (o : LxModuleOption) : Bytes × Bytes := (str o.moduleName, str o.optionName)

/-- The value of an option. -/
def LxModuleOption.value (o : LxModuleOption) : Bytes := str o.optionVal

/-- The entries in the list. -/
def LxOptions.entries (s : LxOptions) : List LxModuleOption := s.list.filterMap s.pool

/-- The values that the list has for a key. -/
def LxOptions.lookup (s : LxOptions) (k : Bytes × Bytes) : List Bytes :=
  (s.entries.filter (·.key = k)).map (·.value)

/-- The value of the last call for a key. -/
def lastValue (xs : List LxModuleOption) (k : Bytes × Bytes) : Option Bytes :=
  (xs.filter (·.key = k)).getLast?.map (·.value)

/-- The list has one entry for each key that was added, with the value of the last call for it. -/
def OptionMap (xs : List LxModuleOption) (s : LxOptions) : Prop :=
  ∀ k, s.lookup k = (lastValue xs k).toList

/-! ### A call -/

section

variable {pool pool' : OptionPool} {pop a : ℕ} {as : List ℕ} {o p x : LxModuleOption}
  {xs : List LxModuleOption}

theorem strcmp_key_iff : (strcmp o.moduleName p.moduleName = 0 ∧
    strcmp o.optionName p.optionName = 0) ↔ o.key = p.key := by
  rw [strcmp_eq_zero_iff, strcmp_eq_zero_iff, LxModuleOption.key, LxModuleOption.key,
    Prod.mk.injEq]

/-- An option that the list does not have leaves it as it is. -/
theorem replaceLoop_of_forall (hpop : pool pop = some o)
    (has : ∀ a ∈ as, ∃ p, pool a = some p ∧ o.key ≠ p.key) :
    replaceLoop pop as pool = some pool := by
  induction as with
  | nil => rfl
  | cons a as ih =>
    obtain ⟨p, hp, hne⟩ := has a List.mem_cons_self
    have hrest := ih fun b hb => has b (List.mem_cons_of_mem a hb)
    rw [replaceLoop, hpop, hp]
    simp only [Option.bind_eq_bind, Option.bind_some, strcmp_key_iff, hne, if_false, hrest]

/-- An entry that was freed stays so, if the loop comes to its end. -/
theorem replaceLoop_freed (hpop : pool pop = none) (h : replaceLoop pop as pool = some pool') :
    pool' pop = none := by
  cases as with
  | nil => exact Option.some.inj h ▸ hpop
  | cons a as => simp [replaceLoop, hpop] at h

/-- The entry of an option that the list has is freed. -/
theorem replaceLoop_of_exists (hpop : pool pop = some o)
    (hex : ∃ a ∈ as, ∃ p, pool a = some p ∧ o.key = p.key)
    (h : replaceLoop pop as pool = some pool') : pool' pop = none := by
  induction as with
  | nil => simp at hex
  | cons a as ih =>
    rw [replaceLoop, hpop] at h
    cases hp : pool a with
    | none => simp [hp] at h
    | some p =>
      simp only [hp, Option.bind_eq_bind, Option.bind_some, strcmp_key_iff] at h
      by_cases hkey : o.key = p.key
      · rw [if_pos hkey] at h
        exact replaceLoop_freed (Function.update_self ..) h
      · rw [if_neg hkey] at h
        refine ih ?_ h
        obtain ⟨b, hb, q, hq, heq⟩ := hex
        rcases List.mem_cons.1 hb with rfl | hb
        · exact absurd (Option.some.inj (hp.symm.trans hq) ▸ heq) hkey
        · exact ⟨b, hb, q, hq, heq⟩

/-! ### Runs -/

/-- The memory after calls with different options. -/
def optionState (xs : List LxModuleOption) : LxOptions :=
  ⟨fun i => xs[i]?, (List.range xs.length).reverse, xs.length⟩

theorem update_getElem? (xs : List LxModuleOption) (x : LxModuleOption) :
    Function.update (fun i => xs[i]?) xs.length (some x) = fun i => (xs ++ [x])[i]? := by
  funext i
  rw [List.getElem?_append, Function.update_apply]
  grind

theorem getElem?_concat (h : a < xs.length) (x : LxModuleOption) :
    (xs ++ [x])[a]? = some xs[a] := by
  rw [List.getElem?_append_left h, List.getElem?_eq_getElem h]

/-- A call with an option that the list does not have. -/
theorem step_optionState (h : x.key ∉ xs.map (·.key)) :
    optionMachine.step (optionState xs) x = some (optionState (xs ++ [x])) := by
  have hpop : (xs ++ [x])[xs.length]? = some x := List.getElem?_concat_length
  have hloop : replaceLoop xs.length (List.range xs.length).reverse (fun i => (xs ++ [x])[i]?) =
      some fun i => (xs ++ [x])[i]? := by
    apply replaceLoop_of_forall hpop
    intro a ha
    have hlt : a < xs.length := by simpa using ha
    refine ⟨xs[a], getElem?_concat hlt x, fun heq => h ?_⟩
    exact List.mem_map.2 ⟨xs[a], List.getElem_mem hlt, heq.symm⟩
  simp only [optionMachine, optionState, update_getElem?, lxAddOrReplaceOption, hloop,
    Option.bind_eq_bind, Option.bind_some, listAddOption, hpop]
  rw [if_pos, List.length_append, List.length_singleton, List.range_succ, List.reverse_append,
    List.reverse_singleton, List.singleton_append]
  intro a ha
  have hlt : a < xs.length := by simpa using List.mem_of_mem_head? ha
  simp [hlt, Nat.lt_succ_of_lt hlt]

/-- A call with an option that the list has uses the entry that it has freed. -/
theorem step_eq_none (h : x.key ∈ xs.map (·.key)) :
    optionMachine.step (optionState xs) x = none := by
  have hpop : (xs ++ [x])[xs.length]? = some x := List.getElem?_concat_length
  obtain ⟨p, hp, hkey⟩ := List.mem_map.1 h
  obtain ⟨a, ha, rfl⟩ := List.mem_iff_getElem.1 hp
  simp only [optionMachine, optionState, update_getElem?, lxAddOrReplaceOption]
  cases hloop : replaceLoop xs.length (List.range xs.length).reverse
      (fun i => (xs ++ [x])[i]?) with
  | none => rfl
  | some pool' =>
    have hfree : pool' xs.length = none := by
      apply replaceLoop_of_exists hpop _ hloop
      exact ⟨a, by simpa using ha, xs[a], getElem?_concat ha x, hkey.symm⟩
    simp [listAddOption, hfree]

/-- The memory after calls with different options. -/
theorem exec_eq_optionState (h : (xs.map (·.key)).Nodup) :
    optionMachine.exec optionMachine.init xs = some (optionState xs) := by
  induction xs using List.reverseRecOn with
  | nil => rfl
  | append_singleton xs x ih =>
    rw [List.map_append, List.nodup_append] at h
    have hx : x.key ∉ xs.map (·.key) := fun hmem => h.2.2 _ hmem x.key (by simp) rfl
    rw [Machine.exec_append, ih h.1]
    simp [Machine.exec, step_optionState hx]

/-- Calls with an option a second time do not come to their end. -/
theorem nodup_of_exec {s : LxOptions} (h : optionMachine.exec optionMachine.init xs = some s) :
    (xs.map (·.key)).Nodup := by
  induction xs using List.reverseRecOn generalizing s with
  | nil => exact List.nodup_nil
  | append_singleton xs x ih =>
    rw [Machine.exec_append] at h
    obtain ⟨s₁, hs₁, hx⟩ := Option.bind_eq_some_iff.1 h
    have hnodup := ih hs₁
    rw [exec_eq_optionState hnodup, Option.some.injEq] at hs₁
    rw [← hs₁] at hx
    have hnew : x.key ∉ xs.map (·.key) := fun hmem => by
      simp [Machine.exec, step_eq_none hmem] at hx
    rw [List.map_append, List.nodup_append]
    refine ⟨hnodup, List.nodup_singleton _, fun k hk k' hk' heq => hnew ?_⟩
    rw [List.map_singleton, List.mem_singleton] at hk'
    rwa [← hk', ← heq]

theorem entries_optionState (xs : List LxModuleOption) :
    (optionState xs).entries = xs.reverse := by
  induction xs using List.reverseRecOn with
  | nil => rfl
  | append_singleton xs x ih =>
    have hcongr : (List.range xs.length).reverse.filterMap (fun i => (xs ++ [x])[i]?) =
        (List.range xs.length).reverse.filterMap (fun i => xs[i]?) := by
      apply List.filterMap_congr
      intro a ha
      have hlt : a < xs.length := by simpa using ha
      exact List.getElem?_append_left hlt
    rw [LxOptions.entries, optionState] at ih ⊢
    rw [List.length_append, List.length_singleton, List.range_succ, List.reverse_append,
      List.reverse_singleton, List.singleton_append,
      List.filterMap_cons_some (List.getElem?_concat_length), hcongr, ih, List.reverse_append,
      List.reverse_singleton, List.singleton_append]

/-- The entries of a key are one at most. -/
theorem length_filter_key_le (h : (xs.map (·.key)).Nodup) (k : Bytes × Bytes) :
    (xs.filter (·.key = k)).length ≤ 1 := by
  have hbeq : (fun o : LxModuleOption => decide (o.key = k)) = (· == k) ∘ (·.key) := by
    funext o
    exact (beq_eq_decide ..).symm
  have hcount := List.nodup_iff_count_le_one.1 h k
  rwa [List.count, List.countP_map, List.countP_eq_length_filter, ← hbeq] at hcount

theorem optionMap_optionState (h : (xs.map (·.key)).Nodup) : OptionMap xs (optionState xs) := by
  intro k
  have hle := length_filter_key_le h k
  rw [LxOptions.lookup, entries_optionState, List.filter_reverse, lastValue]
  cases hl : xs.filter (·.key = k) with
  | nil => rfl
  | cons x l =>
    rw [hl, List.length_cons] at hle
    have hnil : l = [] := List.eq_nil_of_length_eq_zero (by omega)
    rw [hnil]
    rfl

/-- The list is a map in every run if and only if no option is added twice. -/
theorem optionMap_iff (xs : List LxModuleOption) :
    (∃ s, optionMachine.exec optionMachine.init xs = some s ∧ OptionMap xs s) ↔
      (xs.map (·.key)).Nodup :=
  ⟨fun ⟨_, hs, _⟩ => nodup_of_exec hs,
    fun h => ⟨optionState xs, exec_eq_optionState h, optionMap_optionState h⟩⟩

/-- The second call with an option uses the entry that it has freed. -/
theorem not_optionMap_twice :
    ¬ ∃ s, optionMachine.exec optionMachine.init
        [⟨[109, 0], [107, 0], [49, 0]⟩, ⟨[109, 0], [107, 0], [50, 0]⟩] = some s ∧
      OptionMap [⟨[109, 0], [107, 0], [49, 0]⟩, ⟨[109, 0], [107, 0], [50, 0]⟩] s :=
  fun ⟨_, hs, _⟩ => absurd (nodup_of_exec hs) (by decide)

end

end LxApi32
