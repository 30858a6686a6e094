import Mathlib.Data.List.Basic
import Mathlib.Order.Basic

/-!
# Lists of ranges

Things that take up a range of numbers each, from `lo a` up to, but not including, `hi a`.

## Main definitions

* `Ranges.Disj lo hi a b` : no number is in both ranges.
* `Ranges.Apart lo hi a b` : one of the two ends before the other one begins.
* `Ranges.Ordered lo hi l` : the list is sorted by `lo`, and its ranges are apart.
* `Ranges.Tiles lo hi n l m` : the ranges cover the numbers from `n` to `m`, one after the other.

## Main results

* `Ranges.ordered_iff` : every range of an ordered list ends before the later ones begin.
* `Ranges.pairwise_insert` : what an insertion needs.
* `Ranges.find?_eq_some` : the range that a number is in is found.
-/

namespace LxApi32

namespace Ranges

variable {α : Type*} (lo hi : α → ℕ)

/-- No number is in both ranges. -/
def Disj (a b : α) : Prop := ∀ n, lo a ≤ n → n < hi a → ¬ (lo b ≤ n ∧ n < hi b)

/-- One of the two ends before the other one begins. -/
def Apart (a b : α) : Prop := hi a ≤ lo b ∨ hi b ≤ lo a

instance (a b : α) : Decidable (Apart lo hi a b) := inferInstanceAs (Decidable (_ ∨ _))

/-- The list is sorted, and its ranges are apart. -/
structure Ordered (l : List α) : Prop where
  /-- It is sorted. -/
  sorted : l.Pairwise fun a b => lo a ≤ lo b
  /-- The ranges are apart. -/
  apart : l.Pairwise (Apart lo hi)

/-- The ranges follow one another without a gap, from `n` to `m`. -/
def Tiles : ℕ → List α → ℕ → Prop
  | n, [], m => n = m
  | n, a :: l, m => lo a = n ∧ Tiles (hi a) l m

variable {lo hi} {a b x : α} {l front back : List α} {n : ℕ}

theorem Apart.disj (h : Apart lo hi a b) : Disj lo hi a b := by
  intro n hlo hhi hn
  rcases h with h | h <;> omega

/-- Every range ends before the later ones begin. -/
theorem ordered_iff (h : ∀ a ∈ l, lo a < hi a) :
    Ordered lo hi l ↔ l.Pairwise fun a b => hi a ≤ lo b := by
  constructor
  · intro hl
    refine (hl.sorted.and hl.apart).imp_of_mem ?_
    rintro a b - hb ⟨hle, hapart | hapart⟩
    · exact hapart
    · have := h b hb
      omega
  · intro hl
    refine ⟨hl.imp_of_mem fun ha _ hle => ?_, hl.imp fun hle => .inl hle⟩
    have := h _ ha
    omega

/-- A range that is put into a list has to fit to those on both sides. -/
theorem pairwise_insert {R : α → α → Prop} (h : (front ++ back).Pairwise R) :
    (front ++ x :: back).Pairwise R ↔ (∀ a ∈ front, R a x) ∧ ∀ b ∈ back, R x b := by
  rw [List.pairwise_append] at h
  rw [List.pairwise_append, List.pairwise_cons]
  constructor
  · rintro ⟨-, ⟨hback, -⟩, hall⟩
    exact ⟨fun a ha => hall a ha x List.mem_cons_self, hback⟩
  · rintro ⟨hfront, hback⟩
    refine ⟨h.1, ⟨hback, h.2.1⟩, fun a ha b hb => ?_⟩
    rcases List.mem_cons.1 hb with rfl | hb
    · exact hfront a ha
    · exact h.2.2 a ha b hb

/-- In a list of ranges without common numbers, a search for a number finds the range it is in. -/
theorem find?_eq_some {p : α → Bool} (hp : ∀ a ∈ l, p a = true ↔ lo a ≤ n ∧ n < hi a)
    (hl : l.Pairwise (Disj lo hi)) (ha : a ∈ l) (hlo : lo a ≤ n) (hhi : n < hi a) :
    l.find? p = some a := by
  induction l with
  | nil => exact absurd ha List.not_mem_nil
  | cons b l ih =>
    obtain ⟨hb, hl⟩ := List.pairwise_cons.1 hl
    rcases List.mem_cons.1 ha with rfl | ha
    · exact List.find?_cons_of_pos ((hp a List.mem_cons_self).2 ⟨hlo, hhi⟩)
    · have hneg : ¬ p b = true := by
        rw [hp b List.mem_cons_self]
        exact fun hn => hb a ha n hn.1 hn.2 ⟨hlo, hhi⟩
      rw [List.find?_cons_of_neg hneg]
      exact ih (fun c hc => hp c (List.mem_cons_of_mem _ hc)) hl ha

end Ranges

end LxApi32
