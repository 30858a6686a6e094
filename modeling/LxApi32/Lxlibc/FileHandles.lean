import LxApi32.Lib.Descriptors
import LxApi32.Lib.FirstMatch
import Mathlib.Order.Bounds.Basic

/-!
# The file handles of lxlibc

A program knows its files by mapped handles.  `lx_filehandles` tells for each of them which
subsystem the file belongs to, and its real handle there.

* `lxapiRegisterFilehandle_snd` : a file that is registered gets a mapped handle that is not in use.
* `Mapped.get_iff` : while mapped handles are different, each is found.
* `registerFilehandle_lowest` : the search for a mapped handle ends with the smallest one.
-/

namespace LxApi32

/-- `LXFH_TYPE_OS` and `LXFH_TYPE_LX` -/
inductive FhType
  | os
  | lx
  deriving DecidableEq, Repr

/-- `struct lx_filehandle` -/
structure LxFilehandle where
  /-- `type` -/
  type : FhType
  /-- `mapped_handle` -/
  mappedHandle : ℤ
  /-- `real_handle` -/
  realHandle : ℤ
  deriving DecidableEq, Repr

/-- `LXAPI_get_filehandle_struct` -/
def lxapiGetFilehandleStruct (handle : ℤ) (lxFilehandles : List LxFilehandle) :
    Option LxFilehandle :=
  lxFilehandles.find? fun fhp => fhp.mappedHandle = handle

/-- `LXAPI_register_real_filehandle`; `memory` tells whether there is memory for the entry. -/
def lxapiRegisterRealFilehandle (realHandle mappedHandle : ℤ) (type : FhType) (memory : Bool)
    (lxFilehandles : List LxFilehandle) : ℤ × List LxFilehandle :=
  if memory then (0, ⟨type, mappedHandle, realHandle⟩ :: lxFilehandles) else (-1, lxFilehandles)

/-- `LXAPI_register_filehandle` -/
def lxapiRegisterFilehandle (handle : ℤ) (type : FhType) (memory : Bool)
    (lxFilehandles : List LxFilehandle) : ℤ × List LxFilehandle :=
  let mappedHandle := lowest (lxFilehandles.map (·.mappedHandle)) 2 lxFilehandles.length
  let r := lxapiRegisterRealFilehandle handle mappedHandle type memory lxFilehandles
  (if r.1 = 0 then mappedHandle else -1, r.2)

/-- `LXAPI_deregister_filehandle` -/
def lxapiDeregisterFilehandle (handle : ℤ) (lxFilehandles : List LxFilehandle) :
    List LxFilehandle :=
  lxFilehandles.eraseP fun fhp => fhp.mappedHandle = handle

/-- Mapped handles are different. -/
def Mapped (l : List LxFilehandle) : Prop := (l.map LxFilehandle.mappedHandle).Nodup

variable {l : List LxFilehandle} {fhp : LxFilehandle} {handle : ℤ} {type : FhType} {memory : Bool}

theorem lxapiGetFilehandleStruct_eq_none_iff :
    lxapiGetFilehandleStruct handle l = none ↔ ∀ fhp ∈ l, fhp.mappedHandle ≠ handle := by
  simp [lxapiGetFilehandleStruct]

theorem mem_of_get (h : lxapiGetFilehandleStruct handle l = some fhp) :
    fhp ∈ l ∧ fhp.mappedHandle = handle :=
  ⟨List.mem_of_find?_eq_some h, by simpa using List.find?_some h⟩

/-- Each mapped handle is found. -/
theorem Mapped.get_iff (h : Mapped l) :
    lxapiGetFilehandleStruct handle l = some fhp ↔ fhp ∈ l ∧ fhp.mappedHandle = handle :=
  FirstMatch.find?_key_iff h

/-- A file is registered under a mapped handle that is not in use, or not at all. -/
theorem lxapiRegisterFilehandle_snd (handle : ℤ) (type : FhType) (memory : Bool)
    (l : List LxFilehandle) : ∃ mappedHandle, (∀ fhp ∈ l, fhp.mappedHandle ≠ mappedHandle) ∧
      (lxapiRegisterFilehandle handle type memory l).2 =
        if memory then ⟨type, mappedHandle, handle⟩ :: l else l := by
  have hspec := lowest_spec (l.map (·.mappedHandle)) 2
  rw [List.length_map] at hspec
  refine ⟨_, fun fhp hfhp heq => hspec.2.1 (List.mem_map.2 ⟨fhp, hfhp, heq⟩), ?_⟩
  unfold lxapiRegisterFilehandle lxapiRegisterRealFilehandle
  split_ifs <;> rfl

/-- A number that is not a mapped handle is not deregistered. -/
theorem lxapiDeregisterFilehandle_of_none (h : lxapiGetFilehandleStruct handle l = none) :
    lxapiDeregisterFilehandle handle l = l :=
  List.eraseP_of_forall_not fun fhp hfhp => by
    simpa using lxapiGetFilehandleStruct_eq_none_iff.1 h fhp hfhp

theorem Mapped.cons (h : Mapped l) (hnew : ∀ a ∈ l, a.mappedHandle ≠ fhp.mappedHandle) :
    Mapped (fhp :: l) := by
  refine List.nodup_cons.2 ⟨fun hmem => ?_, h⟩
  obtain ⟨a, ha, heq⟩ := List.mem_map.1 hmem
  exact hnew a ha heq

theorem Mapped.deregister (h : Mapped l) (handle : ℤ) :
    Mapped (lxapiDeregisterFilehandle handle l) :=
  h.sublist (List.eraseP_sublist.map _)

/-- Deregistering takes out the one entry with the handle. -/
theorem Mapped.mem_deregister (h : Mapped l) :
    fhp ∈ lxapiDeregisterFilehandle handle l ↔ fhp ∈ l ∧ fhp.mappedHandle ≠ handle :=
  FirstMatch.mem_eraseP_key_iff h

/-! ### The search for a mapped handle -/

/-- The `list_for_each` of `LXAPI_register_filehandle`: `mapped_handle` and `found` after it. -/
def scanMapped (mappedHandle : ℤ) : List LxFilehandle → ℤ × Bool
  | [] => (mappedHandle, false)
  | tmp :: list =>
    if tmp.mappedHandle = mappedHandle then (mappedHandle + 1, true)
    else scanMapped mappedHandle list

/-- The `while(1==found)` around it, if it ends within some number of rounds. -/
def searchMapped (lxFilehandles : List LxFilehandle) : ℕ → ℤ → Option ℤ
  | 0, _ => none
  | rounds + 1, mappedHandle =>
    let r := scanMapped mappedHandle lxFilehandles
    if r.2 then searchMapped lxFilehandles rounds r.1 else some r.1

/-- `LXAPI_register_filehandle`, if its search ends within some number of rounds. -/
def registerFilehandle (rounds : ℕ) (handle : ℤ) (type : FhType) (memory : Bool)
    (lxFilehandles : List LxFilehandle) : Option (ℤ × List LxFilehandle) :=
  (searchMapped lxFilehandles rounds 2).map fun mappedHandle =>
    let r := lxapiRegisterRealFilehandle handle mappedHandle type memory lxFilehandles
    (if r.1 = 0 then mappedHandle else -1, r.2)

/-- The mapped handles that `LXAPI_register_filehandle` may give out. -/
def freeHandles (l : List LxFilehandle) : Set ℤ := {n | 2 ≤ n ∧ ∀ fhp ∈ l, fhp.mappedHandle ≠ n}

/-- A hit anywhere in the list sends the search to the next number. -/
theorem scanMapped_eq (n : ℤ) (l : List LxFilehandle) :
    scanMapped n l =
      if n ∈ l.map LxFilehandle.mappedHandle then (n + 1, true) else (n, false) := by
  induction l with
  | nil => rfl
  | cons tmp l ih =>
    rw [scanMapped, ih, List.map_cons]
    by_cases htmp : tmp.mappedHandle = n
    · rw [if_pos htmp, if_pos (List.mem_cons.2 (.inl htmp.symm))]
    · simp only [if_neg htmp, List.mem_cons, Ne.symm htmp, false_or]

/-- Each round but the last leaves fewer mapped handles from the number on. -/
theorem searchMapped_eq {n : ℤ} {k : ℕ}
    (hk : ((l.map LxFilehandle.mappedHandle).filter fun m => n ≤ m).length ≤ k) :
    searchMapped l (k + 1) n = some (lowest (l.map LxFilehandle.mappedHandle) n k) := by
  induction k generalizing n with
  | zero =>
    have hn : n ∉ l.map LxFilehandle.mappedHandle := by
      intro hmem
      have hnil := List.length_eq_zero_iff.1 (Nat.le_zero.1 hk)
      exact List.filter_eq_nil_iff.1 hnil n hmem (by simp)
    rw [searchMapped, scanMapped_eq, if_neg hn, lowest]
    rfl
  | succ k ih =>
    rw [searchMapped, scanMapped_eq, lowest]
    by_cases hn : n ∈ l.map LxFilehandle.mappedHandle
    · have hlt := length_filter_succ_lt hn
      have hrest := Nat.le_of_lt_succ (Nat.lt_of_lt_of_le hlt hk)
      rw [if_pos hn, if_pos hn]
      exact ih hrest
    · rw [if_neg hn, if_neg hn]
      rfl

/-- The search ends with the smallest number from `2` on that is not mapped. -/
theorem exists_searchMapped (l : List LxFilehandle) : ∃ n, IsLeast (freeHandles l) n ∧
    ∀ rounds > l.length, searchMapped l rounds 2 = some n := by
  have hleast (k : ℕ) (hk : l.length ≤ k) :
      IsLeast (freeHandles l) (lowest (l.map LxFilehandle.mappedHandle) 2 k) := by
    have hle := List.length_filter_le (fun m => decide (2 ≤ m)) (l.map LxFilehandle.mappedHandle)
    rw [List.length_map] at hle
    obtain ⟨h2, hnot, hall⟩ := lowest_spec_of_le 2 k (hle.trans hk)
    refine ⟨⟨h2, fun fhp hfhp heq => hnot (List.mem_map.2 ⟨fhp, hfhp, heq⟩)⟩, ?_⟩
    intro n hn
    by_contra hlt
    obtain ⟨fhp, hfhp, heq⟩ := List.mem_map.1 (hall n hn.1 (by omega))
    exact hn.2 fhp hfhp heq
  refine ⟨_, hleast l.length le_rfl, fun rounds hrounds => ?_⟩
  obtain ⟨k, rfl⟩ : ∃ k, rounds = k + 1 := ⟨rounds - 1, by omega⟩
  have hk : l.length ≤ k := by omega
  rw [searchMapped_eq ((List.length_filter_le ..).trans (by rwa [List.length_map])),
    (hleast k hk).unique (hleast l.length le_rfl)]

/-- **A file gets the smallest free handle.**  The search ends, after one round more than there are
entries at most; if there is memory, exactly one entry is added, for the smallest number from `2` on
that is not mapped, and mapped handles stay different. -/
theorem registerFilehandle_lowest (h : Mapped l) (handle : ℤ) (type : FhType) (memory : Bool) :
    ∃ r, (∀ rounds > l.length, registerFilehandle rounds handle type memory l = some r) ∧
      (if memory then IsLeast (freeHandles l) r.1 ∧ r.2 = ⟨type, r.1, handle⟩ :: l
        else r = (-1, l)) ∧
      Mapped r.2 := by
  obtain ⟨n, hn, hsearch⟩ := exists_searchMapped l
  cases memory with
  | false =>
    refine ⟨(-1, l), fun rounds hrounds => ?_, rfl, h⟩
    rw [registerFilehandle, hsearch rounds hrounds]
    rfl
  | true =>
    refine ⟨(n, ⟨type, n, handle⟩ :: l), fun rounds hrounds => ?_, ⟨hn, rfl⟩, h.cons hn.1.2⟩
    rw [registerFilehandle, hsearch rounds hrounds]
    rfl

/-- `registerFilehandle_lowest` when `3` and `2` are mapped. -/
theorem registerFilehandle_two_mapped :
    ∃ r, (∀ rounds > 2, registerFilehandle rounds 7 .os true [⟨.os, 3, 3⟩, ⟨.lx, 2, 5⟩] = some r) ∧
      IsLeast (freeHandles [⟨.os, 3, 3⟩, ⟨.lx, 2, 5⟩]) r.1 ∧ Mapped r.2 := by
  have h : Mapped [⟨.os, 3, 3⟩, ⟨.lx, 2, 5⟩] := by
    unfold Mapped
    decide
  obtain ⟨r, hrun, ⟨hleast, -⟩, hmapped⟩ := registerFilehandle_lowest h 7 .os true
  exact ⟨r, hrun, hleast, hmapped⟩

/-- The search is what `lxapiRegisterFilehandle` says. -/
theorem registerFilehandle_eq {rounds : ℕ} (hrounds : l.length < rounds) :
    registerFilehandle rounds handle type memory l =
      some (lxapiRegisterFilehandle handle type memory l) := by
  obtain ⟨n, -, hsearch⟩ := exists_searchMapped l
  have hlowest : searchMapped l (l.length + 1) 2 =
      some (lowest (l.map LxFilehandle.mappedHandle) 2 l.length) :=
    searchMapped_eq ((List.length_filter_le ..).trans (by rw [List.length_map]))
  rw [hsearch _ (Nat.lt_succ_self _), Option.some.injEq] at hlowest
  rw [registerFilehandle, hsearch rounds hrounds, hlowest]
  rfl

end LxApi32
