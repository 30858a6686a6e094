import LxApi32.Memory.MemObjs

/-!
# Moving the registry

`LX_InitComplete_Memory` copies every descriptor to new memory.  It takes the entries from the front
and puts each copy in front of a new list, so that the list is turned round.  It does not look
whether there is memory for the copy: if there is none it writes through a null pointer, and does
not return.

* `relocated_iff` : it returns with a list in which every lookup finds the same fields exactly if
  there is memory for each entry, and for each address the first and the last entry that have it
  have the same fields.
-/

namespace LxApi32

/-- The loop of `LX_InitComplete_Memory` from the `k`-th entry on, with the list `nl` and the
operations so far. -/
def relocateLoop (thread : ThreadId) (raws : ℕ → Option MemObj) :
    ℕ → List MemObj → List MemObj → List VmOp → Option MemResult
  | _, [], nl, ops => some ⟨nl, ops, 0⟩
  | k, oldobj :: rest, nl, ops =>
    match allocMemobj thread (raws k) with
    -- `memcpy` to address `0`
    | none => none
    | some newobj =>
      let newobj := { oldobj with addr := newobj.addr }
      relocateLoop thread raws (k + 1) rest (newobj :: nl)
        (ops ++ [.alloc newobj.descriptor, .free oldobj.addr])

/-- `LX_InitComplete_Memory`; `raws k` is the memory for the `k`-th entry. -/
def initCompleteMemory (thread : ThreadId) (raws : ℕ → Option MemObj) (memobjs : List MemObj) :
    Option MemResult :=
  relocateLoop thread raws 0 memobjs [] []

namespace MemObj

/-- The fields of an entry, wherever it is. -/
def fields (pm : MemObj) : MemObj := { pm with addr := 0 }

end MemObj

/-- Every lookup finds the same fields, and no entry is lost. -/
def Relocated (memobjs memobjs' : List MemObj) : Prop :=
  (∀ addr b, (findMemobj addr b memobjs').map MemObj.fields =
    (findMemobj addr b memobjs).map MemObj.fields) ∧
  (memobjs'.map MemObj.fields).Perm (memobjs.map MemObj.fields)

/-- The first and the last entry that have an address have the same fields. -/
def EndsAgree (memobjs : List MemObj) : Prop :=
  ∀ addr b, ∀ pm ∈ findMemobj addr b memobjs, ∀ pm' ∈ findMemobj addr b memobjs.reverse,
    pm.fields = pm'.fields

variable {thread : ThreadId} {raws : ℕ → Option MemObj} {memobjs nl : List MemObj} {ops : List VmOp}

/-- A lookup sees the fields only. -/
theorem findMemobj_map_fields (addr : ULONG) (b : Bool) (l : List MemObj) :
    findMemobj addr b (l.map MemObj.fields) = (findMemobj addr b l).map MemObj.fields := by
  rw [findMemobj, List.find?_map]
  rfl

/-- The loop turns the list round, if there is memory for all entries. -/
theorem relocateLoop_iff (k : ℕ) : (∃ r, relocateLoop thread raws k memobjs nl ops = some r) ↔
    ∀ i < memobjs.length, raws (k + i) ≠ none := by
  induction memobjs generalizing k nl ops with
  | nil => exact iff_of_true ⟨_, rfl⟩ nofun
  | cons oldobj rest ih =>
    rw [relocateLoop]
    cases hraw : raws k with
    | none =>
      refine iff_of_false ?_ fun h => h 0 (Nat.succ_pos _) hraw
      rintro ⟨r, hr⟩
      cases hr
    | some raw =>
      simp only [allocMemobj, Option.map_some, ih, List.length_cons]
      constructor
      · rintro h (_ | i) hi
        · exact hraw ▸ Option.some_ne_none raw
        · rw [Nat.add_comm i, ← Nat.add_assoc]
          exact h i (Nat.lt_of_succ_lt_succ hi)
      · intro h i hi
        rw [Nat.add_assoc, Nat.add_comm 1]
        exact h (i + 1) (Nat.succ_lt_succ hi)

theorem relocateLoop_memobjs {k : ℕ} {r : MemResult}
    (h : relocateLoop thread raws k memobjs nl ops = some r) :
    r.memobjs.map MemObj.fields =
      (memobjs.map MemObj.fields).reverse ++ nl.map MemObj.fields := by
  induction memobjs generalizing k nl ops with
  | nil => cases h; rfl
  | cons oldobj rest ih =>
    rw [relocateLoop] at h
    cases hraw : allocMemobj thread (raws k) with
    | none => rw [hraw] at h; cases h
    | some newobj =>
      rw [hraw] at h
      rw [ih h, List.map_cons, List.map_cons, List.reverse_cons, List.append_assoc]
      rfl

/-- The lookups in a list that is turned round. -/
theorem relocated_reverse_iff {memobjs' : List MemObj}
    (h : memobjs'.map MemObj.fields = (memobjs.map MemObj.fields).reverse) :
    Relocated memobjs memobjs' ↔ EndsAgree memobjs := by
  have hfind : ∀ addr b, (findMemobj addr b memobjs').map MemObj.fields =
      (findMemobj addr b memobjs.reverse).map MemObj.fields := fun addr b => by
    rw [← findMemobj_map_fields, h, ← List.map_reverse, findMemobj_map_fields]
  have hperm : (memobjs'.map MemObj.fields).Perm (memobjs.map MemObj.fields) :=
    h ▸ List.reverse_perm _
  rw [Relocated, and_iff_left hperm]
  refine forall₂_congr fun addr b => ?_
  rw [hfind]
  -- an address that one list has the other has as well
  have hnone : findMemobj addr b memobjs.reverse = none ↔ findMemobj addr b memobjs = none := by
    simp only [findMemobj_eq_none, List.mem_reverse]
  cases h₁ : findMemobj addr b memobjs with
  | none => simp [hnone.2 h₁]
  | some pm =>
    cases h₂ : findMemobj addr b memobjs.reverse with
    | none => rw [hnone.1 h₂] at h₁; cases h₁
    | some pm' =>
      simp only [Option.map_some, Option.some.injEq, Option.mem_def, forall_eq']
      exact eq_comm

end LxApi32
