import Mathlib.Data.List.DropRight

/-!
# Lists joined by one separator

`join sep x rest` is `x` and what `rest` contains, with exactly one separator between them, however
many `x` ends with and `rest` begins with; a `rest` of separators only adds nothing.

* `append_eq_join_iff` : when this is the plain concatenation of the two.
-/

namespace LxApi32

namespace Join

variable {α : Type*}

theorem rdropWhile_append_rtakeWhile (p : α → Bool) (x : List α) :
    x.rdropWhile p ++ x.rtakeWhile p = x := by
  have h := congrArg List.reverse (List.takeWhile_append_dropWhile (p := p) (l := x.reverse))
  rwa [List.reverse_append, List.reverse_reverse] at h

/-- A list of separators is one separator if it has the length 1. -/
theorem eq_singleton_iff {sep : α} {l : List α} (h : ∀ a ∈ l, a = sep) :
    l = [sep] ↔ l.length = 1 := by
  rw [List.eq_replicate_of_mem h, List.length_replicate]
  exact ⟨fun h => by simpa using congrArg List.length h, fun h => by rw [h]; rfl⟩

variable [DecidableEq α] (sep : α)

/-- Two lists joined by exactly one separator. -/
def join (x rest : List α) : List α :=
  if rest.dropWhile (· = sep) = [] then x
  else x.rdropWhile (· = sep) ++ sep :: rest.dropWhile (· = sep)

/-- The number of separators where the two lists meet. -/
def separators (x rest : List α) : ℕ :=
  (x.rtakeWhile (· = sep)).length + (rest.takeWhile (· = sep)).length

variable {sep}

/-- The concatenation has exactly one separator if the two lists have one together, or if nothing is
put behind the first one. -/
theorem append_eq_join_iff (x rest : List α) :
    x ++ rest = join sep x rest ↔
      rest = [] ∨ rest.dropWhile (· = sep) ≠ [] ∧ separators sep x rest = 1 := by
  unfold join
  by_cases hnone : rest.dropWhile (· = sep) = []
  · rw [if_pos hnone, List.append_right_eq_self]
    exact ⟨.inl, fun h => h.resolve_right fun h => h.1 hnone⟩
  have hne : rest ≠ [] := fun h => hnone (by rw [h]; rfl)
  rw [if_neg hnone, or_iff_right hne, and_iff_right hnone]
  have hx := rdropWhile_append_rtakeWhile (fun a => decide (a = sep)) x
  have hrest := List.takeWhile_append_dropWhile (p := fun a => decide (a = sep)) (l := rest)
  have hseps : ∀ a ∈ x.rtakeWhile (· = sep) ++ rest.takeWhile (· = sep), a = sep := by
    intro a ha
    rcases List.mem_append.1 ha with ha | ha
    · simpa using List.mem_rtakeWhile_imp ha
    · simpa using List.mem_takeWhile_imp ha
  have hcut : x ++ rest = x.rdropWhile (· = sep) ++
      ((x.rtakeWhile (· = sep) ++ rest.takeWhile (· = sep)) ++ rest.dropWhile (· = sep)) := by
    rw [List.append_assoc, hrest, ← List.append_assoc, hx]
  rw [hcut, List.append_cancel_left_eq, ← List.singleton_append (l := rest.dropWhile _),
    List.append_cancel_right_eq, eq_singleton_iff hseps, List.length_append, separators]

end Join

end LxApi32
