import Mathlib.Data.Int.Notation
import Mathlib.Data.Nat.Notation
import Mathlib.Logic.Function.Basic

/-!
# Writing to memory

Memory around a pointer is a function of the distance from it.  A program that writes one element
after another writes a list.

* `poke j s m` : the memory `m` with the list `s` from `j` on.
* `poke_cons`, `poke_append` : element by element, and piece by piece.
-/

namespace LxApi32

variable {α : Type*} {m : ℤ → α} {j : ℤ}

/-- The list `s` is written from `j` on. -/
def poke (j : ℤ) (s : List α) (m : ℤ → α) : ℤ → α := fun k =>
  if j ≤ k then s[(k - j).toNat]?.getD (m k) else m k

@[simp] theorem poke_nil : poke j [] m = m := by
  funext k
  simp [poke]

theorem poke_cons (a : α) (s : List α) :
    poke j (a :: s) m = poke (j + 1) s (Function.update m j a) := by
  funext k
  rw [poke, poke]
  obtain hlt | rfl | hgt := Int.lt_trichotomy k j
  · rw [if_neg (by omega), if_neg (by omega), Function.update_of_ne (by omega)]
  · rw [if_pos (Int.le_refl k), if_neg (by omega), Function.update_self, Int.sub_self]
    rfl
  · have hpos : (k - j).toNat = (k - (j + 1)).toNat + 1 := by omega
    rw [if_pos (by omega), if_pos (by omega), Function.update_of_ne (by omega), hpos,
      List.getElem?_cons_succ]

theorem poke_append (s t : List α) :
    poke j (s ++ t) m = poke (j + s.length) t (poke j s m) := by
  induction s generalizing j m with
  | nil => simp
  | cons a s ih =>
    have hlen : j + 1 + (s.length : ℤ) = j + ((a :: s).length : ℕ) := by
      rw [List.length_cons]
      omega
    rw [List.cons_append, poke_cons, ih, poke_cons, hlen]

theorem poke_singleton (a : α) : poke j [a] m = Function.update m j a := by
  rw [poke_cons, poke_nil]

end LxApi32
