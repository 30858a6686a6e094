import Mathlib.Algebra.BigOperators.Intervals
import Mathlib.Algebra.Order.BigOperators.Group.Finset
import Mathlib.Tactic.IntervalCases

/-!
# The Gregorian calendar

The days of the calendar are numbered from the first of January of some year on.  A day number is
a number with digits of unequal size: the years before it, the months before it in its year and the
days before it in its month.  `sum_Ico_add_lt_iff` compares two such numbers by their first digit,
and by the rest if that is the same.

## Main results

* `number_lt_iff` : dates have the order of their numbers.
* `sum_yearDays_1980`, `daysBefore_eq` : the sums in closed form, for years up to 2099.
-/

namespace LxApi32

namespace Calendar

/-- The year has a 29 February. -/
def IsLeap (year : ℕ) : Prop := year % 4 = 0 ∧ (year % 100 ≠ 0 ∨ year % 400 = 0)

instance : DecidablePred IsLeap :=
  fun year => inferInstanceAs (Decidable (year % 4 = 0 ∧ (year % 100 ≠ 0 ∨ year % 400 = 0)))

/-- The days of a month. -/
def monthDays (year : ℕ) : ℕ → ℕ
  | 2 => if IsLeap year then 29 else 28
  | 4 | 6 | 9 | 11 => 30
  | _ => 31

/-- The days of the months before a month. -/
def daysBefore (year month : ℕ) : ℕ := ∑ m ∈ Finset.Ico 1 month, monthDays year m

/-- The days of a year. -/
def yearDays (year : ℕ) : ℕ := daysBefore year 13

/-- A year, a month and a day. -/
structure Date where
  /-- The year. -/
  year : ℕ
  /-- The month, from 1 on. -/
  month : ℕ
  /-- The day, from 1 on. -/
  day : ℕ
  deriving DecidableEq, Repr

namespace Date

/-- The date is in the calendar. -/
structure Valid (d : Date) : Prop where
  month_pos : 1 ≤ d.month
  month_le : d.month ≤ 12
  day_pos : 1 ≤ d.day
  day_le : d.day ≤ monthDays d.year d.month

/-- The days from 1 January `epoch` to the date. -/
def number (epoch : ℕ) (d : Date) : ℕ :=
  ∑ y ∈ Finset.Ico epoch d.year, yearDays y + (daysBefore d.year d.month + (d.day - 1))

end Date

/-! ### Digits of unequal size -/

section Digits

variable {f : ℕ → ℕ} {a i j r s : ℕ}

theorem sum_Ico_add_lt (hi : a ≤ i) (hr : r < f i) (hij : i < j) :
    ∑ k ∈ Finset.Ico a i, f k + r < ∑ k ∈ Finset.Ico a j, f k := by
  have hnext : ∑ k ∈ Finset.Ico a (i + 1), f k = ∑ k ∈ Finset.Ico a i, f k + f i :=
    Finset.sum_Ico_succ_top hi f
  have hle : ∑ k ∈ Finset.Ico a (i + 1), f k ≤ ∑ k ∈ Finset.Ico a j, f k :=
    Finset.sum_le_sum_of_subset (Finset.Ico_subset_Ico_right hij)
  omega

/-- The first digit decides, and then the rest. -/
theorem sum_Ico_add_lt_iff (hi : a ≤ i) (hj : a ≤ j) (hr : r < f i) (hs : s < f j) :
    ∑ k ∈ Finset.Ico a i, f k + r < ∑ k ∈ Finset.Ico a j, f k + s ↔ i < j ∨ i = j ∧ r < s := by
  rcases lt_trichotomy i j with hlt | rfl | hgt
  · have := sum_Ico_add_lt hi hr hlt
    exact iff_of_true (by omega) (.inl hlt)
  · simp
  · have := sum_Ico_add_lt hj hs hgt
    exact iff_of_false (by omega) (by omega)

end Digits

/-! ### The order of the dates -/

namespace Date

variable {epoch : ℕ} {d d' : Date}

/-- A date is in its year. -/
theorem Valid.lt_yearDays (h : d.Valid) :
    daysBefore d.year d.month + (d.day - 1) < yearDays d.year := by
  have hpos := h.day_pos
  have hle := h.day_le
  exact sum_Ico_add_lt h.month_pos (by omega) (Nat.lt_succ_of_le h.month_le)

/-- **Dates have the order of their numbers.** -/
theorem number_lt_iff (h : d.Valid) (h' : d'.Valid) (he : epoch ≤ d.year) (he' : epoch ≤ d'.year) :
    d.number epoch < d'.number epoch ↔ d.year < d'.year ∨ d.year = d'.year ∧
      (d.month < d'.month ∨ d.month = d'.month ∧ d.day < d'.day) := by
  have hyear := sum_Ico_add_lt_iff he he' h.lt_yearDays h'.lt_yearDays
  rw [number, number, hyear]
  refine or_congr_right (and_congr_right fun hy => ?_)
  have hpos := h.day_pos
  have hle := h.day_le
  have hpos' := h'.day_pos
  have hle' := h'.day_le
  rw [← hy] at hle' ⊢
  have hmonth : daysBefore d.year d.month + (d.day - 1) < daysBefore d.year d'.month + (d'.day - 1)
      ↔ d.month < d'.month ∨ d.month = d'.month ∧ d.day - 1 < d'.day - 1 :=
    sum_Ico_add_lt_iff h.month_pos h'.month_pos (by omega) (by omega)
  rw [hmonth]
  omega

end Date

/-! ### The sums -/

theorem monthDays_le (year month : ℕ) : monthDays year month ≤ 31 := by
  unfold monthDays
  split <;> try split_ifs
  all_goals decide

/-- The year 1 has no 29 February. -/
theorem monthDays_one_le (year month : ℕ) : monthDays 1 month ≤ monthDays year month := by
  unfold monthDays
  split
  · rw [if_neg (show ¬ IsLeap 1 by decide)]
    split_ifs <;> decide
  all_goals exact le_rfl

/-- The days of the months before, where 29 February comes on top. -/
theorem daysBefore_eq (year : ℕ) {month : ℕ} (h₁ : 1 ≤ month) (h₂ : month ≤ 13) :
    daysBefore year month =
      [0, 31, 59, 90, 120, 151, 181, 212, 243, 273, 304, 334, 365].getD (month - 1) 0 +
        if IsLeap year ∧ 2 < month then 1 else 0 := by
  unfold daysBefore
  by_cases hleap : IsLeap year <;> interval_cases month <;>
    simp [Finset.sum_Ico_succ_top, monthDays, hleap]

theorem yearDays_eq (year : ℕ) : yearDays year = if IsLeap year then 366 else 365 := by
  rw [yearDays, daysBefore_eq year (by decide) (by decide)]
  by_cases hleap : IsLeap year <;> simp [hleap]

theorem isLeap_1980 {y : ℕ} (h : y < 120) : IsLeap (1980 + y) ↔ y % 4 = 0 := by
  unfold IsLeap
  omega

/-- The days of the years before, from 1970 on. -/
theorem sum_yearDays_1980 {y : ℕ} (h : y ≤ 120) :
    ∑ i ∈ Finset.Ico 1970 (1980 + y), yearDays i = 3652 + 365 * y + (y + 3) / 4 := by
  induction y with
  | zero => simp [Finset.sum_Ico_succ_top, yearDays_eq, IsLeap]
  | succ y ih =>
    rw [← Nat.add_assoc, Finset.sum_Ico_succ_top (by omega), ih (by omega), yearDays_eq,
      if_congr (isLeap_1980 (show y < 120 by omega)) rfl rfl]
    split_ifs <;> omega

end Calendar

end LxApi32
