import LxApi32.Lib.LexCompare
import LxApi32.Lxafs.Dentry

/-!
# The order of file names

`lxafs_compare_names` compares two names character by character, in upper case, and then their
lengths.

* `lxafsCompareNames_eq` : it is the lexicographic comparison of the names in upper case.
* `compareNames_order` : so its results are those of a total preorder.
-/

namespace LxApi32

namespace Qstr

/-- The name in upper case. -/
def upcased (q : Qstr) : Bytes := (q.name.take q.len).map lxafsUpcase

/-- `lxafs_compare_names` without `last`. -/
def compareNames (a b : Qstr) : ℤ := lxafsCompareNames a.name a.len b.name b.len 0

end Qstr

/-- The loop of `lxafs_compare_names` and the comparison of the lengths behind it. -/
theorem compareLoop_lexCompare (n1 n2 : Bytes) :
    (if compareLoop n1 n2 ≠ 0 then compareLoop n1 n2
      else if n1.length < n2.length then -1 else if n2.length < n1.length then 1 else 0) =
      lexCompare (n1.map lxafsUpcase) (n2.map lxafsUpcase) := by
  induction n1 generalizing n2 with
  | nil =>
    cases n2 with
    | nil => rfl
    | cons c2 n2 => simp [compareLoop, lexCompare]
  | cons c1 n1 ih =>
    cases n2 with
    | nil => simp [compareLoop, lexCompare]
    | cons c2 n2 =>
      rw [List.map_cons, List.map_cons, lexCompare, compareLoop, ← ih]
      simp only [List.length_cons, Nat.add_lt_add_iff_right]
      by_cases hlt : lxafsUpcase c1 < lxafsUpcase c2
      · simp only [if_pos hlt]
        rfl
      · by_cases hgt : lxafsUpcase c2 < lxafsUpcase c1
        · simp only [if_neg hlt, if_pos hgt]
          rfl
        · simp only [if_neg hlt, if_neg hgt]

/-- What stands behind the shorter name is not looked at. -/
theorem compareLoop_take (n1 n2 : Bytes) :
    compareLoop (n1.take (min n1.length n2.length)) (n2.take (min n1.length n2.length)) =
      compareLoop n1 n2 := by
  induction n1 generalizing n2 with
  | nil => cases n2 <;> rfl
  | cons c1 n1 ih =>
    cases n2 with
    | nil => rfl
    | cons c2 n2 =>
      rw [List.length_cons, List.length_cons, Nat.succ_min_succ, List.take_succ_cons,
        List.take_succ_cons, compareLoop, compareLoop, ih]

namespace Qstr

theorem lxafsCompareNames_eq (a b : Qstr) :
    a.compareNames b = lexCompare a.upcased b.upcased := by
  have ha : (a.name.take a.len).length = a.len := List.length_take_of_le a.len_le
  have hb : (b.name.take b.len).length = b.len := List.length_take_of_le b.len_le
  have hloop := compareLoop_take (a.name.take a.len) (b.name.take b.len)
  rw [ha, hb, List.take_take, List.take_take, Nat.min_eq_left (Nat.min_le_left ..),
    Nat.min_eq_left (Nat.min_le_right ..)] at hloop
  rw [upcased, upcased, ← compareLoop_lexCompare, ha, hb, compareNames, lxafsCompareNames]
  simp only [hloop, ne_eq, not_true_eq_false, ↓reduceIte]

/-- **The order of names.**  Names compare equal if they are the same in upper case, swapping them
negates the result, and `≤ 0` is the lexicographic order of the names in upper case: transitive and
total, with a name before those that it begins. -/
theorem compareNames_order (a b c : Qstr) :
    (a.compareNames b = 0 ↔ a.upcased = b.upcased) ∧
    b.compareNames a = -a.compareNames b ∧
    (a.compareNames b ≤ 0 → b.compareNames c ≤ 0 → a.compareNames c ≤ 0) ∧
    (a.compareNames b ≤ 0 ∨ b.compareNames a ≤ 0) ∧
    (a.compareNames b ≤ 0 ↔ a.upcased ≤ b.upcased) ∧
    (a.upcased <+: b.upcased → a.compareNames b ≤ 0) := by
  simp only [lxafsCompareNames_eq]
  exact ⟨lexCompare_eq_zero_iff .., lexCompare_swap .., lexCompare_trans, lexCompare_total ..,
    lexCompare_nonpos_iff .., lexCompare_of_prefix⟩

end Qstr

end LxApi32
