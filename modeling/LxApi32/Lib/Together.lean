import Mathlib.Data.List.Basic
import Mathlib.Data.List.TakeDrop

/-!
# Elements that stand together

The elements of a list with a property stand together if nothing else stands between them.  So a
loop can skip what comes in front of them, and ends behind the last one.

* `Parts.takeWhile`, `Parts.dropWhile` : what such a loop finds.
* `Parts.replace` : others can take their place without a harm to the elements with another
  property.
-/

namespace LxApi32

variable {α : Type*} {p q : α → Prop} {l A M M' B : List α}

/-- A list in three parts: those with the property are in the middle, and if there are none
everything comes before it. -/
structure Parts (p : α → Prop) (A M B : List α) : Prop where
  front : ∀ x ∈ A, ¬ p x
  mid : ∀ x ∈ M, p x
  back : ∀ x ∈ B, ¬ p x
  last : M = [] → B = []

/-- The elements with the property stand together. -/
def Together (p : α → Prop) (l : List α) : Prop := ∃ A M B, l = A ++ (M ++ B) ∧ Parts p A M B

theorem together_of_append (hA : ∀ x ∈ A, ¬ p x) (hM : ∀ x ∈ M, p x) (hB : ∀ x ∈ B, ¬ p x) :
    Together p (A ++ (M ++ B)) := by
  cases M with
  | nil =>
    refine ⟨A ++ B, [], [], by simp, fun x hx => ?_, nofun, nofun, fun _ => rfl⟩
    rcases List.mem_append.1 hx with hx | hx
    exacts [hA x hx, hB x hx]
  | cons x M => exact ⟨A, x :: M, B, rfl, hA, hM, hB, nofun⟩

theorem together_of_forall_not (h : ∀ x ∈ l, ¬ p x) : Together p l :=
  ⟨l, [], [], by simp, h, nofun, nofun, fun _ => rfl⟩

theorem Together.cons {x : α} (hx : ¬ p x) (h : Together p l) : Together p (x :: l) := by
  obtain ⟨A, M, B, rfl, hparts⟩ := h
  exact ⟨x :: A, M, B, rfl, List.forall_mem_cons.2 ⟨hx, hparts.front⟩, hparts.mid, hparts.back,
    hparts.last⟩

theorem Together.filter (f : α → Bool) (h : Together p l) : Together p (l.filter f) := by
  obtain ⟨A, M, B, rfl, hparts⟩ := h
  rw [List.filter_append, List.filter_append]
  exact together_of_append (fun x hx => hparts.front x (List.mem_of_mem_filter hx))
    (fun x hx => hparts.mid x (List.mem_of_mem_filter hx))
    fun x hx => hparts.back x (List.mem_of_mem_filter hx)

/-- The elements with the property. -/
theorem filter_append_append {f : α → Bool} (hf : ∀ x, f x = true ↔ p x) (hA : ∀ x ∈ A, ¬ p x)
    (hM : ∀ x ∈ M, p x) (hB : ∀ x ∈ B, ¬ p x) : (A ++ (M ++ B)).filter f = M := by
  rw [List.filter_append, List.filter_append,
    List.filter_eq_nil_iff.2 fun x hx hfx => hA x hx ((hf x).1 hfx),
    List.filter_eq_nil_iff.2 fun x hx hfx => hB x hx ((hf x).1 hfx),
    List.filter_eq_self.2 fun x hx => (hf x).2 (hM x hx), List.nil_append, List.append_nil]

namespace Parts

theorem takeWhile (h : Parts p A M B) {f : α → Bool} (hf : ∀ x, f x = true ↔ ¬ p x) :
    (A ++ (M ++ B)).takeWhile f = A := by
  rw [List.takeWhile_append_of_pos fun x hx => (hf x).2 (h.front x hx)]
  cases M with
  | nil => simp [h.last rfl]
  | cons x M =>
    rw [List.cons_append, List.takeWhile_cons_of_neg, List.append_nil]
    exact fun hx => (hf x).1 hx (h.mid x List.mem_cons_self)

theorem dropWhile (h : Parts p A M B) {f : α → Bool} (hf : ∀ x, f x = true ↔ ¬ p x) :
    (A ++ (M ++ B)).dropWhile f = M ++ B := by
  rw [List.dropWhile_append_of_pos fun x hx => (hf x).2 (h.front x hx)]
  cases M with
  | nil => simp [h.last rfl]
  | cons x M =>
    rw [List.cons_append, List.dropWhile_cons_of_neg]
    exact fun hx => (hf x).1 hx (h.mid x List.mem_cons_self)

/-- Two lists begin with elements that cannot be the same. -/
theorem eq_nil_of_append_eq {C D E : List α} (hpq : ∀ x, p x → ¬ q x) (hC : ∀ x ∈ C, p x)
    (hD : ∀ x ∈ D, q x) (heq : C ++ B = D ++ E) : C = [] ∨ D = [] := by
  cases C with
  | nil => exact .inl rfl
  | cons x C =>
    cases D with
    | nil => exact .inr rfl
    | cons y D =>
      obtain rfl : x = y := (List.cons.inj heq).1
      exact absurd (hD x List.mem_cons_self) (hpq x (hC x List.mem_cons_self))

/-- Others take the place of the elements in the middle. -/
theorem replace (h : Parts p A M B) (hpq : ∀ x, p x → ¬ q x) (hM' : ∀ x ∈ M', p x)
    (hq : Together q (A ++ (M ++ B))) : Together q (A ++ (M' ++ B)) := by
  obtain ⟨A₁, M₁, B₁, heq, h₁⟩ := hq
  have hnew : ∀ x ∈ M', ¬ q x := fun x hx => hpq x (hM' x hx)
  cases hM₁ : M₁ with
  | nil =>
    -- there are no elements with the other property
    have hno : ∀ x ∈ A ++ (M ++ B), ¬ q x := by
      rw [heq, hM₁, h₁.last hM₁, List.nil_append, List.append_nil]
      exact h₁.front
    refine together_of_forall_not fun x hx => ?_
    simp only [List.mem_append] at hx hno
    rcases hx with hx | hx | hx
    exacts [hno x (.inl hx), hnew x hx, hno x (.inr (.inr hx))]
  | cons y M₂ =>
    have hne : M₁ ≠ [] := by rw [hM₁]; nofun
    rcases List.append_eq_append_iff.1 heq with ⟨C, rfl, hC⟩ | ⟨C, rfl, hC⟩
    · -- they stand behind the front
      rcases List.append_eq_append_iff.1 hC with ⟨D, rfl, rfl⟩ | ⟨D, rfl, hD⟩
      · have hlist : A ++ (M' ++ (D ++ (M₁ ++ B₁))) = (A ++ (M' ++ D)) ++ (M₁ ++ B₁) := by
          simp only [List.append_assoc]
        rw [hlist]
        refine together_of_append (fun x hx => ?_) h₁.mid h₁.back
        simp only [List.mem_append] at hx
        rcases hx with hx | hx | hx
        · exact h₁.front x (List.mem_append_left _ hx)
        · exact hnew x hx
        · exact h₁.front x (by simp [hx])
      · obtain rfl : D = [] := (eq_nil_of_append_eq (fun x hx hp => hpq x hp hx) h₁.mid
          (fun x hx => h.mid x (List.mem_append_right _ hx)) hD).resolve_left hne
        rw [← show M₁ ++ B₁ = B from hD, ← List.append_assoc]
        refine together_of_append (fun x hx => ?_) h₁.mid h₁.back
        rcases List.mem_append.1 hx with hx | hx
        exacts [h₁.front x (List.mem_append_left _ hx), hnew x hx]
    · -- they begin in the front
      have hback : ∀ D, (∀ x ∈ D, ¬ q x) → (∀ x ∈ B, ¬ q x) → Together q
          (A₁ ++ M₁ ++ D ++ (M' ++ B)) := fun D hD hB => by
        have hlist : A₁ ++ M₁ ++ D ++ (M' ++ B) = A₁ ++ (M₁ ++ (D ++ (M' ++ B))) := by
          simp only [List.append_assoc]
        rw [hlist]
        refine together_of_append h₁.front h₁.mid fun x hx => ?_
        simp only [List.mem_append] at hx
        rcases hx with hx | hx | hx
        exacts [hD x hx, hnew x hx, hB x hx]
      rcases List.append_eq_append_iff.1 hC with ⟨D, rfl, rfl⟩ | ⟨D, hD, hB⟩
      · rw [← List.append_assoc A₁]
        exact hback D (fun x hx => h₁.back x (List.mem_append_left _ hx)) fun x hx =>
          h₁.back x (by simp [hx])
      · have hnil : D = [] := by
          refine (eq_nil_of_append_eq hpq h.mid (fun x hx => h₁.mid x ?_) hB).elim
            (fun hM => ?_) id
          · rw [hD]
            exact List.mem_append_right _ hx
          · rw [hM, h.last hM] at hB
            exact (List.append_eq_nil_iff.1 hB.symm).1
        rw [hnil, List.nil_append] at hB
        rw [hnil, List.append_nil] at hD
        have := hback [] nofun fun x hx => h₁.back x (hB ▸ List.mem_append_right _ hx)
        rwa [List.append_nil, hD] at this

end Parts

end LxApi32
