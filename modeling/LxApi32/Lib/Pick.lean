import Mathlib.Data.List.Nodup
import Mathlib.Data.List.Perm.Basic

/-!
# An element picked out of a list

Whoever takes one element out of a list, in whatever order, leaves the others as they are.

* `Pick.perm` : the list is the element and what remains.
* `Pick.mem_iff`, `Pick.mem_map_iff` : what remains, if the elements have different names.
-/

namespace LxApi32

namespace Pick

variable {α β : Type*} {l : List α} {k : ℕ} {x : α} {f : α → β}

theorem perm (h : l[k]? = some x) : l.Perm (x :: l.eraseIdx k) := by
  obtain ⟨hk, rfl⟩ := List.getElem?_eq_some_iff.1 h
  exact (List.getElem_cons_eraseIdx_perm hk).symm

/-- The element is exchanged for another one. -/
theorem perm_set (h : l[k]? = some x) (y : α) : (l.set k y).Perm (y :: l.eraseIdx k) := by
  obtain ⟨hk, -⟩ := List.getElem?_eq_some_iff.1 h
  exact List.set_perm_cons_eraseIdx hk y

/-- The element is not among the others, nor are two of them the same. -/
theorem nodup_map (h : l[k]? = some x) (hnodup : (l.map f).Nodup) :
    f x ∉ (l.eraseIdx k).map f ∧ ((l.eraseIdx k).map f).Nodup := by
  have hperm := (perm h).map f
  exact List.nodup_cons.1 (hperm.nodup_iff.1 hnodup)

theorem mem_map_iff (h : l[k]? = some x) (hnodup : (l.map f).Nodup) {b : β} :
    b ∈ (l.eraseIdx k).map f ↔ b ∈ l.map f ∧ b ≠ f x := by
  have hnot := (nodup_map h hnodup).1
  rw [((perm h).map f).mem_iff, List.map_cons, List.mem_cons]
  constructor
  · intro hb
    refine ⟨.inr hb, ?_⟩
    rintro rfl
    exact hnot hb
  · rintro ⟨hb, hne⟩
    exact hb.resolve_left hne

theorem mem_iff (h : l[k]? = some x) (hnodup : (l.map f).Nodup) {y : α} :
    y ∈ l.eraseIdx k ↔ y ∈ l ∧ y ≠ x := by
  have hl : (l.map id).Nodup := by
    rw [List.map_id]
    exact List.Nodup.of_map f hnodup
  have hmem := mem_map_iff h hl (b := y)
  rwa [List.map_id, List.map_id] at hmem

end Pick

end LxApi32
