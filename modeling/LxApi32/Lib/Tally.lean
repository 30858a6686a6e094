import Mathlib.Algebra.BigOperators.Group.Finset.Piecewise
import Mathlib.Algebra.BigOperators.Ring.Finset
import Mathlib.Algebra.Order.BigOperators.Group.Finset
import Mathlib.Data.Int.Order.Basic
import Mathlib.Tactic.Ring

/-!
# Sums over all parties

Each of finitely many parties is at some place, and each place has a weight.

* `Tally.tally_update`, `Tally.tally_of_list` : what one party, or several, change by moving.
* `Tally.tally_eq_card` : counting.
* `Tally.add_le_tally`, `Tally.tally_le` : the sum is at least the weights of two parties, and at
  most the greatest weight for each.
-/

namespace LxApi32

namespace Tally

variable {T P : Type*} [Fintype T] {w : P → ℤ} {f : T → P} {t u : T} {x : P}

/-- The sum of the weights of the places. -/
def tally (w : P → ℤ) (f : T → P) : ℤ := ∑ t, w (f t)

/-- All parties at places without weight. -/
theorem tally_eq_zero (h : ∀ t, w (f t) = 0) : tally w f = 0 := Finset.sum_eq_zero fun t _ => h t

/-- **One party moves.** -/
theorem tally_update [DecidableEq T] (w : P → ℤ) (f : T → P) (t : T) (x : P) :
    tally w (Function.update f t x) = tally w f - w (f t) + w x := by
  have hcomp : (fun u => w (Function.update f t x u)) =
      Function.update (fun u => w (f u)) t (w x) := by
    funext u
    rcases eq_or_ne u t with rfl | hne
    · rw [Function.update_self, Function.update_self]
    · rw [Function.update_of_ne hne, Function.update_of_ne hne]
  rw [tally, tally, hcomp, Finset.sum_update_of_mem (Finset.mem_univ t),
    ← Finset.sum_erase_add _ _ (Finset.mem_univ t), Finset.sdiff_singleton_eq_erase]
  ring

/-- **Several parties move**, and the weight of each changes by `c`. -/
theorem tally_of_list [DecidableEq T] {g : T → P} {l : List T} {c : ℤ} (hl : l.Nodup)
    (hin : ∀ t ∈ l, w (g t) = w (f t) + c) (hout : ∀ t ∉ l, g t = f t) :
    tally w g = tally w f + l.length * c := by
  have hterm : ∀ t, w (g t) = w (f t) + if t ∈ l.toFinset then c else 0 := by
    intro t
    by_cases ht : t ∈ l
    · rw [if_pos (List.mem_toFinset.2 ht), hin t ht]
    · rw [if_neg (mt List.mem_toFinset.1 ht), hout t ht, add_zero]
  calc
    tally w g = ∑ t, (w (f t) + if t ∈ l.toFinset then c else 0) :=
      Finset.sum_congr rfl fun t _ => hterm t
    _ = tally w f + l.length * c := by
      rw [Finset.sum_add_distrib, ← Finset.sum_filter, Finset.sum_const,
        Finset.filter_mem_eq_inter, Finset.univ_inter, List.toFinset_card_of_nodup hl,
        nsmul_eq_mul]
      rfl

theorem tally_nonneg (hw : ∀ p, 0 ≤ w p) : 0 ≤ tally w f :=
  Finset.sum_nonneg fun t _ => hw (f t)

theorem le_tally (hw : ∀ p, 0 ≤ w p) (t : T) : w (f t) ≤ tally w f :=
  Finset.single_le_sum (fun u _ => hw (f u)) (Finset.mem_univ t)

/-- Two parties together. -/
theorem add_le_tally (hw : ∀ p, 0 ≤ w p) (hne : t ≠ u) : w (f t) + w (f u) ≤ tally w f := by
  classical
  rw [tally, ← Finset.add_sum_erase _ _ (Finset.mem_univ t)]
  gcongr
  exact Finset.single_le_sum (f := fun u => w (f u)) (fun v _ => hw (f v))
    (Finset.mem_erase.2 ⟨hne.symm, Finset.mem_univ u⟩)

theorem tally_le {c : ℤ} (hw : ∀ p, w p ≤ c) : tally w f ≤ Fintype.card T * c := by
  calc
    tally w f ≤ ∑ _t : T, c := Finset.sum_le_sum fun t _ => hw (f t)
    _ = Fintype.card T * c := by rw [Finset.sum_const, Finset.card_univ, nsmul_eq_mul]

/-- **Counting** those at places of a kind. -/
theorem tally_eq_card {q : T → Prop} [DecidablePred q]
    (h : ∀ t, w (f t) = if q t then 1 else 0) : tally w f = (Finset.univ.filter q).card := by
  rw [tally, Finset.sum_congr rfl fun t _ => h t, Finset.sum_boole]

end Tally

end LxApi32
