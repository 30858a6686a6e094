import Mathlib.Data.Int.Notation
import Mathlib.Order.Basic

/-!
# Comparing lists

A comparison of strings goes through both of them up to the first difference, and compares the
lengths if there is none.  Its result is a sign.

* `lexCompare l m` : this comparison, for lists over any linear order.
* `lexCompare_swap`, `lexCompare_eq_zero_iff`, `lexCompare_nonpos_iff` : it is the comparison of the
  lexicographic order.
* `lexCompare_trans`, `lexCompare_total`, `lexCompare_of_prefix` : what follows for its results.
-/

namespace LxApi32

section

variable {α : Type*} [LT α] [DecidableLT α]

/-- The sign of the first difference; if there is none, the shorter list comes first. -/
def lexCompare : List α → List α → ℤ
  | [], [] => 0
  | [], _ :: _ => -1
  | _ :: _, [] => 1
  | a :: l, b :: m => if a < b then -1 else if b < a then 1 else lexCompare l m

theorem lexCompare_range (l m : List α) :
    lexCompare l m = -1 ∨ lexCompare l m = 0 ∨ lexCompare l m = 1 := by
  fun_induction lexCompare l m with
  | case1 => exact .inr (.inl rfl)
  | case2 => exact .inl rfl
  | case3 => exact .inr (.inr rfl)
  | case4 => exact .inl rfl
  | case5 => exact .inr (.inr rfl)
  | case6 _ _ _ _ _ _ ih => exact ih

variable [LE α] [Std.IsLinearOrder α] [Std.LawfulOrderLT α] {l m n : List α}

/-- Swapping the lists changes the sign. -/
theorem lexCompare_swap (l m : List α) : lexCompare m l = -lexCompare l m := by
  fun_induction lexCompare l m with
  | case1 => rfl
  | case2 => rfl
  | case3 => rfl
  | case4 a l b m hlt =>
    have hgt : ¬ b < a := Std.not_lt.2 (Std.le_of_lt hlt)
    rw [lexCompare, if_neg hgt, if_pos hlt]
    rfl
  | case5 a l b m hlt hgt => rw [lexCompare, if_pos hgt]
  | case6 a l b m hlt hgt ih => rw [lexCompare, if_neg hgt, if_neg hlt, ih]

theorem lexCompare_eq_neg_one_iff (l m : List α) : lexCompare l m = -1 ↔ l < m := by
  fun_induction lexCompare l m with
  | case1 => exact iff_of_false (by decide) (List.not_lt_nil [])
  | case2 b m => exact iff_of_true rfl (List.nil_lt_cons b m)
  | case3 => exact iff_of_false (by decide) (List.not_lt_nil _)
  | case4 a l b m hlt => exact iff_of_true rfl (List.cons_lt_cons_iff.2 (.inl hlt))
  | case5 a l b m hlt hgt =>
    refine iff_of_false (by decide) fun h => ?_
    rcases List.cons_lt_cons_iff.1 h with h | ⟨rfl, -⟩
    · exact hlt h
    · exact hlt hgt
  | case6 a l b m hlt hgt ih =>
    have heq : a = b := Std.le_antisymm (Std.not_lt.1 hgt) (Std.not_lt.1 hlt)
    rw [ih, List.cons_lt_cons_iff, heq]
    simp [Std.lt_irrefl]

/-- It is the comparison of the lexicographic order. -/
theorem lexCompare_nonpos_iff (l m : List α) : lexCompare l m ≤ 0 ↔ l ≤ m := by
  have hrange := lexCompare_range l m
  have hswap := lexCompare_swap l m
  rw [← List.not_lt, ← lexCompare_eq_neg_one_iff]
  omega

theorem lexCompare_eq_zero_iff (l m : List α) : lexCompare l m = 0 ↔ l = m := by
  have hswap := lexCompare_swap l m
  constructor
  · intro h
    apply List.le_antisymm
    · exact (lexCompare_nonpos_iff l m).1 (by omega)
    · exact (lexCompare_nonpos_iff m l).1 (by omega)
  · rintro rfl
    omega

theorem lexCompare_trans (h : lexCompare l m ≤ 0) (h' : lexCompare m n ≤ 0) :
    lexCompare l n ≤ 0 := by
  rw [lexCompare_nonpos_iff] at h h' ⊢
  exact List.le_trans h h'

theorem lexCompare_total (l m : List α) : lexCompare l m ≤ 0 ∨ lexCompare m l ≤ 0 := by
  rw [lexCompare_nonpos_iff, lexCompare_nonpos_iff]
  exact List.le_total l m

/-- A list comes before what is longer. -/
theorem lexCompare_of_prefix (h : l <+: m) : lexCompare l m ≤ 0 :=
  (lexCompare_nonpos_iff l m).2 h.le

end

end LxApi32
