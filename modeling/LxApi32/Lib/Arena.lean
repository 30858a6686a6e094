import Mathlib.Data.List.Basic
import Mathlib.Data.List.Perm.Basic
import Mathlib.Data.List.Nodup

/-!
# Memory that is handed out in blocks

A heap is a list of blocks of any type `β`, found by their address `base`.  What a function asks of
the allocator is a list of operations: a block that is handed out, or an address that is given
back.  A relation `R` between blocks says when they are apart.

## Main definitions

* `Arena.run` : the heap after some operations.
* `Arena.Fresh R` : every block that is handed out is apart from all that there are.
* `Arena.FreesAllocated` : every address that is given back is that of a block that is there.

## Main results

* `Arena.pairwise_run` : the blocks stay apart.
* `Arena.release_perm_of_perm_cons` : to give back a block takes it out.
-/

namespace LxApi32

namespace Arena

/-- An operation of an allocator. -/
inductive Op (α β : Type*)
  /-- A block is handed out. -/
  | alloc (b : β)
  /-- An address is given back. -/
  | free (a : α)
  deriving DecidableEq, Repr

variable {α β : Type*} [DecidableEq α] (base : β → α)

/-- The heap without the block at an address. -/
def release (a : α) (heap : List β) : List β := heap.filter fun b => base b ≠ a

/-- The blocks that are handed out. -/
def allocs : List (Op α β) → List β
  | [] => []
  | .alloc b :: ops => b :: allocs ops
  | .free _ :: ops => allocs ops

/-- The heap after some operations. -/
def run : List β → List (Op α β) → List β
  | heap, [] => heap
  | heap, .alloc b :: ops => run (b :: heap) ops
  | heap, .free a :: ops => run (release base a heap) ops

/-- Every block that is handed out is apart from those that there are. -/
def Fresh (R : β → β → Prop) : List β → List (Op α β) → Prop
  | _, [] => True
  | heap, .alloc b :: ops => (∀ c ∈ heap, R b c) ∧ Fresh R (b :: heap) ops
  | heap, .free a :: ops => Fresh R (release base a heap) ops

/-- Every address that is given back is that of a block. -/
def FreesAllocated : List β → List (Op α β) → Prop
  | _, [] => True
  | heap, .alloc b :: ops => FreesAllocated (b :: heap) ops
  | heap, .free a :: ops => (∃ b ∈ heap, base b = a) ∧ FreesAllocated (release base a heap) ops

instance decidableFresh {R : β → β → Prop} [DecidableRel R] :
    (heap : List β) → (ops : List (Op α β)) → Decidable (Fresh base R heap ops)
  | _, [] => .isTrue trivial
  | heap, .alloc b :: ops =>
    have : Decidable (Fresh base R (b :: heap) ops) := decidableFresh (b :: heap) ops
    inferInstanceAs (Decidable ((∀ c ∈ heap, R b c) ∧ Fresh base R (b :: heap) ops))
  | heap, .free a :: ops => decidableFresh (release base a heap) ops

instance decidableFreesAllocated :
    (heap : List β) → (ops : List (Op α β)) → Decidable (FreesAllocated base heap ops)
  | _, [] => .isTrue trivial
  | heap, .alloc b :: ops => decidableFreesAllocated (b :: heap) ops
  | heap, .free a :: ops =>
    have := decidableFreesAllocated (release base a heap) ops
    inferInstanceAs (Decidable ((∃ b ∈ heap, base b = a) ∧
      FreesAllocated base (release base a heap) ops))

variable {base} {R : β → β → Prop} {a : α} {b c : β} {heap heap' : List β} {ops : List (Op α β)}

@[simp]
theorem mem_release : b ∈ release base a heap ↔ b ∈ heap ∧ base b ≠ a := by
  simp [release]

theorem release_perm (h : heap.Perm heap') : (release base a heap).Perm (release base a heap') :=
  h.filter _

theorem release_of_forall_ne (h : ∀ b ∈ heap, base b ≠ a) : release base a heap = heap :=
  List.filter_eq_self.2 fun b hb => by simpa using h b hb

theorem release_cons_self : release base (base b) (b :: heap) = release base (base b) heap := by
  simp [release]

/-- If no two blocks have an address in common, giving back the address of one takes that out. -/
theorem release_perm_of_perm_cons (h : heap.Perm (b :: heap')) (hnd : (heap.map base).Nodup) :
    (release base (base b) heap).Perm heap' := by
  have hnd' : ((b :: heap').map base).Nodup := (h.map base).nodup_iff.1 hnd
  rw [List.map_cons, List.nodup_cons] at hnd'
  have hne : ∀ c ∈ heap', base c ≠ base b := fun c hc heq =>
    hnd'.1 (heq ▸ List.mem_map_of_mem hc)
  have hperm : (release base (base b) heap).Perm (release base (base b) (b :: heap')) :=
    release_perm h
  rwa [release_cons_self, release_of_forall_ne hne] at hperm

theorem run_append (ops' : List (Op α β)) :
    run base heap (ops ++ ops') = run base (run base heap ops) ops' := by
  induction ops generalizing heap with
  | nil => rfl
  | cons op ops ih => cases op <;> exact ih

theorem fresh_append {ops' : List (Op α β)} : Fresh base R heap (ops ++ ops') ↔
    Fresh base R heap ops ∧ Fresh base R (run base heap ops) ops' := by
  induction ops generalizing heap with
  | nil => exact (and_iff_right trivial).symm
  | cons op ops ih =>
    cases op with
    | alloc b => exact (and_congr_right fun _ => ih).trans and_assoc.symm
    | free a => exact ih

/-- What is given back last is not there. -/
theorem not_mem_run_free (h : base b = a) : b ∉ run base heap (ops ++ [.free a]) := by
  rw [run_append]
  exact fun hb => (mem_release.1 hb).2 h

/-- A block that is given back at once. -/
theorem run_alloc_free (h : ∀ c ∈ heap, base c ≠ base b) :
    run base heap [.alloc b, .free (base b)] = heap := by
  simp only [run, release_cons_self, release_of_forall_ne h]

/-- Blocks that are handed out and not given back. -/
theorem run_map_alloc (bs : List β) : (run base heap (bs.map .alloc)).Perm (bs ++ heap) := by
  induction bs generalizing heap with
  | nil => exact .refl _
  | cons b bs ih => exact ih.trans List.perm_middle

theorem freesAllocated_map_alloc (bs : List β) : FreesAllocated base heap (bs.map .alloc) := by
  induction bs generalizing heap with
  | nil => trivial
  | cons b bs ih => exact ih

/-- **Blocks stay apart.** -/
theorem pairwise_run (h : heap.Pairwise R) (hops : Fresh base R heap ops) :
    (run base heap ops).Pairwise R := by
  induction ops generalizing heap with
  | nil => exact h
  | cons op ops ih =>
    cases op with
    | alloc b => exact ih (List.pairwise_cons.2 ⟨hops.1, h⟩) hops.2
    | free a => exact ih (h.filter _) hops

/-- What every block has and every new one has, every block has afterwards. -/
theorem forall_run {P : β → Prop} (h : ∀ b ∈ heap, P b) (hops : ∀ b ∈ allocs ops, P b) :
    ∀ b ∈ run base heap ops, P b := by
  induction ops generalizing heap with
  | nil => exact h
  | cons op ops ih =>
    cases op with
    | alloc b =>
      obtain ⟨hb, hops⟩ := List.forall_mem_cons.1 hops
      exact ih (List.forall_mem_cons.2 ⟨hb, h⟩) hops
    | free a => exact ih (fun b hb => h b (mem_release.1 hb).1) hops

end Arena

end LxApi32
