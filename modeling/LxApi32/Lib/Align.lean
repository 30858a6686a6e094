import Mathlib.Data.Nat.Basic
import Mathlib.Data.BitVec

/-!
# Rounding by masks

`x &&& mask` and `x &&& ~~~mask` for a mask of the lowest `k` bits are the remainder and the
rounded value for the unit `2 ^ k`.
-/

namespace LxApi32

/-- The lowest `k` bits. -/
def lowMask (w k : ℕ) : BitVec w := BitVec.ofNat w (2 ^ k - 1)

variable {w k : ℕ} (x : BitVec w)

theorem toNat_lowMask (hk : k ≤ w) : (lowMask w k).toNat = 2 ^ k - 1 := by
  have hle : 2 ^ k ≤ 2 ^ w := Nat.pow_le_pow_right (by decide) hk
  have hpos : 0 < 2 ^ k := Nat.two_pow_pos k
  rw [lowMask, BitVec.toNat_ofNat]
  exact Nat.mod_eq_of_lt (by omega)

/-- The remainder. -/
theorem toNat_and_lowMask (hk : k ≤ w) : (x &&& lowMask w k).toNat = x.toNat % 2 ^ k := by
  rw [BitVec.toNat_and, toNat_lowMask hk, Nat.and_two_pow_sub_one_eq_mod]

/-- The two parts make up the number. -/
theorem and_not_add_and (m : BitVec w) : (x &&& ~~~m) + (x &&& m) = x := by
  have hdisj : (x &&& ~~~m) &&& (x &&& m) = 0#w := by
    ext i hi
    simp only [BitVec.getElem_and, BitVec.getElem_not, BitVec.getElem_zero]
    cases x[i] <;> cases m[i] <;> rfl
  rw [BitVec.add_eq_or_of_and_eq_zero _ _ hdisj]
  ext i hi
  simp only [BitVec.getElem_or, BitVec.getElem_and, BitVec.getElem_not]
  cases x[i] <;> cases m[i] <;> rfl

/-- The rounded value. -/
theorem toNat_and_not_lowMask (hk : k ≤ w) :
    (x &&& ~~~lowMask w k).toNat = x.toNat / 2 ^ k * 2 ^ k := by
  have hle : (x &&& lowMask w k).toNat ≤ x.toNat := toNat_and_lowMask x hk ▸ Nat.mod_le _ _
  have heq : x &&& ~~~lowMask w k = x - (x &&& lowMask w k) :=
    eq_sub_of_add_eq (and_not_add_and x _)
  have hdiv := Nat.div_add_mod x.toNat (2 ^ k)
  rw [heq, BitVec.toNat_sub_of_le (BitVec.le_def.2 hle), toNat_and_lowMask x hk, Nat.mul_comm]
  omega

end LxApi32
