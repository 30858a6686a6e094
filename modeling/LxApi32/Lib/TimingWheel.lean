import Mathlib.Data.Nat.Basic
import Mathlib.Tactic.Linarith
import Mathlib.Tactic.Ring

/-!
# Rings of a timing wheel

A ring has `k` slots, and each slot stands for a block of `p` ticks.  What is due at `d` lies in the
slot of its block, `d / p % k`, until the clock `n` has come to the beginning of the block.

* `TimingWheel.Placed.next` : the clock goes on.
* `TimingWheel.Placed.block` : who is in the slot of the clock is due in the block of the clock.
* `TimingWheel.ne_slot` : who is due later than that is in another slot.
-/

namespace LxApi32

namespace TimingWheel

variable {p k n d i : ℕ}

/-- The beginning of the block of `d` is not behind the clock, and `d` is not so far away that its
slot is used for another block. -/
structure Placed (p k n d i : ℕ) : Prop where
  block : n ≤ d / p * p
  range : d < n + k * p
  slot : i = d / p % k

/-- A time is not before the beginning of its block. -/
theorem Placed.le (h : Placed p k n d i) : n ≤ d := h.block.trans (Nat.div_mul_le_self d p)

/-- A time in a later block than the clock. -/
theorem lt_block (hp : 0 < p) (h : n + p ≤ d) : n < d / p * p := by
  have hmod := Nat.mod_lt d hp
  have hdiv := Nat.div_add_mod' d p
  omega

/-- **The clock goes on** where nobody is in the slot of the clock. -/
theorem Placed.next (h : Placed p k n d i) (hne : ¬ (p ∣ n ∧ i = n / p % k)) :
    Placed p k (n + 1) d i := by
  refine ⟨?_, by have := h.range; omega, h.slot⟩
  by_contra hlt
  have heq : d / p * p = n := by have := h.block; omega
  have hdvd : p ∣ n := heq ▸ Nat.dvd_mul_left p (d / p)
  rcases Nat.eq_zero_or_pos p with rfl | hp
  · have hrange := h.range
    simp only [Nat.mul_zero, Nat.add_zero] at hrange heq
    omega
  · refine hne ⟨hdvd, ?_⟩
    rw [h.slot, ← heq, Nat.mul_div_cancel _ hp]

/-- Within the range of the ring a slot is used for one block only. -/
theorem block_eq (hp : 0 < p) (hdvd : p ∣ n) (hle : n ≤ d / p * p) (hrange : d < n + k * p)
    (hslot : d / p % k = n / p % k) : d / p = n / p := by
  obtain ⟨m, rfl⟩ := hdvd
  rw [Nat.mul_div_cancel_left _ hp] at hslot ⊢
  have hlow : m ≤ d / p := Nat.le_of_mul_le_mul_right (by rwa [Nat.mul_comm m]) hp
  have hhigh : d / p < m + k := by
    rw [Nat.div_lt_iff_lt_mul hp]
    calc
      d < p * m + k * p := hrange
      _ = (m + k) * p := by ring
  obtain ⟨j, hj⟩ := Nat.exists_eq_add_of_le hlow
  have hdvd : k ∣ j := by
    have hmod := Nat.sub_mod_eq_zero_of_mod_eq hslot
    rw [hj, Nat.add_sub_cancel_left] at hmod
    exact Nat.dvd_of_mod_eq_zero hmod
  have hzero : j = 0 := Nat.eq_zero_of_dvd_of_lt hdvd (by omega)
  omega

/-- **The slot of the clock** has what is due in the block that begins now. -/
theorem Placed.lt_of_slot (hp : 0 < p) (h : Placed p k n d i) (hdvd : p ∣ n)
    (hi : i = n / p % k) : d < n + p := by
  have heq := block_eq hp hdvd h.block h.range (h.slot.symm.trans hi)
  obtain ⟨m, rfl⟩ := hdvd
  rw [Nat.mul_div_cancel_left _ hp] at heq
  have hmod := Nat.mod_lt d hp
  have hdiv := Nat.div_add_mod d p
  rw [heq] at hdiv
  omega

/-- What is due in a later block is in another slot. -/
theorem ne_slot (hp : 0 < p) (hdvd : p ∣ n) (hlater : n + p ≤ d) (hrange : d < n + k * p) :
    d / p % k ≠ n / p % k := fun hslot => by
  have hplaced : Placed p k n d (d / p % k) := ⟨(lt_block hp hlater).le, hrange, rfl⟩
  have hlt := hplaced.lt_of_slot hp hdvd hslot
  omega

/-- A new entry. -/
theorem placed_of_later (hp : 0 < p) (hlater : n + p ≤ d) (hrange : d < n + k * p) :
    Placed p k (n + 1) d (d / p % k) :=
  ⟨lt_block hp hlater, by omega, rfl⟩

end TimingWheel

end LxApi32
