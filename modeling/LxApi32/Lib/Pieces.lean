import Mathlib.Data.Nat.Notation
import Mathlib.Order.Lattice

/-!
# A list in pieces

A list with separators in it, from the left to the right: the pieces that a separator ends, and
what stands behind the last separator.

* `Pieces.induction` : a property holds of every list if it holds of a list without a separator,
  and of a piece, a separator and a list of which it holds.
* `Pieces.ended_append`, `Pieces.rest_append` : what the pieces of such a list are.
* `Pieces.words_append` : the first piece that is not empty, and the others.
-/

namespace LxApi32

namespace Pieces

variable {α : Type*} [DecidableEq α] {a : α} {l t s : List α}

/-- The pieces that a separator ends. -/
def ended (a : α) (s : List α) : List (List α) := (s.splitOn a).dropLast

/-- What stands behind the last separator. -/
def rest (a : α) (s : List α) : List α := (s.splitOn a).getLastD []

theorem ended_of_notMem (h : a ∉ l) : ended a l = [] := by
  simp [ended, List.splitOn_eq_singleton h]

theorem rest_of_notMem (h : a ∉ l) : rest a l = l := by
  simp [rest, List.splitOn_eq_singleton h]

theorem ended_append (h : a ∉ l) (t : List α) : ended a (l ++ a :: t) = l :: ended a t := by
  rw [ended, List.splitOn_append_cons_self_of_not_mem h,
    List.dropLast_cons_of_ne_nil (List.splitOn_ne_nil a t), ended]

theorem rest_append (h : a ∉ l) (t : List α) : rest a (l ++ a :: t) = rest a t := by
  obtain ⟨p, ps, hp⟩ := List.exists_cons_of_ne_nil (List.splitOn_ne_nil a t)
  simp [rest, List.splitOn_append_cons_self_of_not_mem h, hp]

/-- The pieces of a list, from the first on. -/
theorem induction {P : List α → Prop} (a : α) (last : ∀ l, a ∉ l → P l)
    (piece : ∀ l t, a ∉ l → P t → P (l ++ a :: t)) (s : List α) : P s := by
  induction hn : s.length using Nat.strong_induction_on generalizing s with
  | _ n ih =>
    by_cases ha : a ∈ s
    · obtain ⟨l, t, rfl, hl⟩ := List.eq_append_cons_of_mem ha
      have hlt : t.length < n := by
        rw [← hn, List.length_append, List.length_cons]
        omega
      exact piece l t hl (ih t.length hlt t rfl)
    · exact last s ha

/-! ### Words -/

/-- The pieces that are not empty, each with the length of the list from it on. -/
def wordsAt (a : α) : List (List α) → List (ℕ × List α)
  | [] => []
  | p :: ps =>
    if p = [] then wordsAt a ps else (([a].intercalate (p :: ps)).length, p) :: wordsAt a ps

/-- The words of a list, each with the length of the list from it on. -/
def words (a : α) (s : List α) : List (ℕ × List α) := wordsAt a (s.splitOn a)

@[simp] theorem words_nil (a : α) : words a [] = [] := rfl

@[simp] theorem words_cons_self (a : α) (t : List α) : words a (a :: t) = words a t := by
  have hmem : a ∉ ([] : List α) := List.not_mem_nil
  have hsplit : (a :: t).splitOn a = [] :: t.splitOn a :=
    List.splitOn_append_cons_self_of_not_mem hmem t
  rw [words, hsplit, wordsAt, if_pos rfl, words]

/-- The first word. -/
theorem words_append (h : a ∉ l) (hne : l ≠ []) (ht : t = [] ∨ ∃ u, t = a :: u) :
    words a (l ++ t) = ((l ++ t).length, l) :: words a t := by
  have hall : [a].intercalate ((l ++ t).splitOn a) = l ++ t := List.intercalate_splitOn a
  rcases ht with rfl | ⟨u, rfl⟩
  · simp [words, List.splitOn_eq_singleton h, wordsAt, hne]
  · rw [words_cons_self, words, words]
    rw [List.splitOn_append_cons_self_of_not_mem h] at hall ⊢
    rw [wordsAt, if_neg hne, hall]

/-- A word is part of the list from it on, which is part of the list. -/
theorem length_le_of_mem_words {p : ℕ × List α} (hp : p ∈ words a s) : p.1 ≤ s.length := by
  induction s using induction a with
  | last l h =>
    by_cases hnil : l = []
    · simp [hnil] at hp
    · have hwords := words_append h hnil (.inl rfl)
      rw [List.append_nil] at hwords
      rw [hwords, words_nil, List.mem_singleton] at hp
      rw [hp]
  | piece l t h ih =>
    have hle : t.length ≤ (l ++ a :: t).length := by
      simp
      omega
    by_cases hnil : l = []
    · rw [hnil, List.nil_append, words_cons_self] at hp
      exact (ih hp).trans hle
    · rw [words_append h hnil (.inr ⟨t, rfl⟩), words_cons_self, List.mem_cons] at hp
      rcases hp with rfl | hp
      · exact le_rfl
      · exact (ih hp).trans hle

end Pieces

end LxApi32
