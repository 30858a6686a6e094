import Mathlib.Data.BitVec

/-!
# Words of flags

A word of flags is tested with a mask (`v &&& m ≠ 0`), gets flags with `|||` and loses them with
`&&& ~~~ m`.  What a test says after such an update.
-/

namespace LxApi32

namespace Flags

variable {w : ℕ} {v v' m m' : BitVec w}

theorem or_and_eq_zero : (v ||| v') &&& m = 0#w ↔ v &&& m = 0#w ∧ v' &&& m = 0#w := by
  rw [BitVec.and_or_distrib_right, BitVec.or_eq_zero_iff]

theorem and_or_eq_zero : v &&& (m ||| m') = 0#w ↔ v &&& m = 0#w ∧ v &&& m' = 0#w := by
  rw [BitVec.and_or_distrib_left, BitVec.or_eq_zero_iff]

/-- Flags outside the mask stay. -/
theorem clear_and_of_disjoint (v : BitVec w) (h : m &&& m' = 0#w) :
    v &&& ~~~m &&& m' = v &&& m' := by
  have hsub : ~~~m &&& m' = m' := by
    ext i hi
    have hbit : (m &&& m')[i] = false := by rw [h]; simp
    rw [BitVec.getElem_and] at hbit ⊢
    rw [BitVec.getElem_not]
    revert hbit
    cases m[i] <;> cases m'[i] <;> simp
  rw [BitVec.and_assoc, hsub]

/-- Flags in the mask are gone. -/
theorem clear_and_of_subset (v : BitVec w) (h : m' &&& m = m') : v &&& ~~~m &&& m' = 0#w := by
  have hdisj : ~~~m &&& m' = 0#w := by
    rw [← h, BitVec.and_comm m' m, ← BitVec.and_assoc]
    simp
  rw [BitVec.and_assoc, hdisj]
  simp

/-- A word has flags already if it has them without the others. -/
theorem or_eq_left_iff : v ||| v' = v ↔ v' &&& ~~~v = 0#w := by
  constructor
  · intro h
    ext i hi
    have hbit : (v ||| v')[i] = v[i] := by rw [h]
    rw [BitVec.getElem_or] at hbit
    rw [BitVec.getElem_and, BitVec.getElem_not, BitVec.getElem_zero]
    revert hbit
    cases v[i] <;> cases v'[i] <;> simp
  · intro h
    ext i hi
    have hbit : (v' &&& ~~~v)[i] = false := by rw [h]; simp
    rw [BitVec.getElem_and, BitVec.getElem_not] at hbit
    rw [BitVec.getElem_or]
    revert hbit
    cases v[i] <;> cases v'[i] <;> simp

end Flags

end LxApi32
