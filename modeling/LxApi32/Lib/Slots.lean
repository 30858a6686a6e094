import Mathlib.Data.Fintype.Card
import Mathlib.Data.List.Nodup
import Mathlib.Logic.Function.Basic

/-!
# A table of slots and the list of who holds them

A table has a slot for every `i : ι`, which is marked as used or not, and is known to its holders
under a name.  The names are different, so that a holder can give back a slot by its name.

## Main definitions

* `Slots.Accounts` : the names that are held are those of the used slots, and each is held once.

## Main results

* `Slots.Accounts.take`, `Slots.Accounts.give` : to mark a free slot and hold its name, and to
  clear a slot and hold its name no longer.
* `Slots.Accounts.length_le` : there are no more holders than slots.
-/

namespace LxApi32

namespace Slots

variable {ι σ : Type*} {name : ι → σ} {used : ι → Bool} {held held' : List σ}
  {i : ι}

/-- Every name is held once, and those that are held are the names of the used slots. -/
def Accounts (name : ι → σ) (used : ι → Bool) (held : List σ) : Prop :=
  held.Nodup ∧ ∀ x, x ∈ held ↔ ∃ i, used i = true ∧ name i = x

theorem accounts_nil : Accounts name (fun _ => false) [] :=
  ⟨List.nodup_nil, by simp⟩

theorem Accounts.perm (h : Accounts name used held) (hp : held.Perm held') :
    Accounts name used held' :=
  ⟨hp.nodup_iff.1 h.1, fun x => hp.mem_iff.symm.trans (h.2 x)⟩

/-- The name of a slot is held if the slot is used. -/
theorem Accounts.mem_iff (h : Accounts name used held) (hinj : Function.Injective name) (i : ι) :
    name i ∈ held ↔ used i = true := by
  rw [h.2]
  constructor
  · rintro ⟨j, hj, heq⟩
    exact hinj heq ▸ hj
  · exact fun hi => ⟨i, hi, rfl⟩

/-- A free slot is marked, and its name is held. -/
theorem Accounts.take [DecidableEq ι] (h : Accounts name used held)
    (hinj : Function.Injective name) (hi : used i = false) :
    Accounts name (Function.update used i true) (name i :: held) := by
  refine ⟨List.nodup_cons.2 ⟨?_, h.1⟩, ?_⟩
  · rw [h.mem_iff hinj, hi]
    decide
  intro x
  rw [List.mem_cons, h.2]
  constructor
  · rintro (rfl | ⟨j, hj, rfl⟩)
    · exact ⟨i, Function.update_self .., rfl⟩
    · refine ⟨j, ?_, rfl⟩
      rwa [Function.update_of_ne (by rintro rfl; rw [hi] at hj; cases hj)]
  · rintro ⟨j, hj, rfl⟩
    by_cases hji : j = i
    · exact .inl (congrArg name hji)
    · rw [Function.update_of_ne hji] at hj
      exact .inr ⟨j, hj, rfl⟩

/-- A slot is cleared, and its name is held no longer. -/
theorem Accounts.give [DecidableEq ι] (h : Accounts name used (name i :: held))
    (hinj : Function.Injective name) : Accounts name (Function.update used i false) held := by
  obtain ⟨hni, hnd⟩ := List.nodup_cons.1 h.1
  refine ⟨hnd, fun x => ?_⟩
  constructor
  · intro hx
    obtain ⟨j, hj, rfl⟩ := (h.2 x).1 (List.mem_cons_of_mem _ hx)
    have hji : j ≠ i := fun hji => hni (hji ▸ hx)
    exact ⟨j, by rwa [Function.update_of_ne hji], rfl⟩
  · rintro ⟨j, hj, rfl⟩
    have hji : j ≠ i := by
      rintro rfl
      rw [Function.update_self] at hj
      cases hj
    rw [Function.update_of_ne hji] at hj
    refine ((List.mem_cons.1 ((h.2 _).2 ⟨j, hj, rfl⟩)).resolve_left ?_)
    exact fun heq => hji (hinj heq)

/-- There are no more holders than slots. -/
theorem Accounts.length_le [Fintype ι] (h : Accounts name used held) :
    held.length ≤ Fintype.card ι := by
  classical
  have hsub : held ⊆ Finset.univ.toList.map name := fun x hx => by
    obtain ⟨i, -, rfl⟩ := (h.2 x).1 hx
    exact List.mem_map_of_mem (Finset.mem_toList.2 (Finset.mem_univ i))
  simpa using (List.subperm_of_subset h.1 hsub).length_le

end Slots

end LxApi32
