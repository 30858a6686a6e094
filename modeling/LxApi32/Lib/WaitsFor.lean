import Mathlib.Data.List.Basic
import Mathlib.Logic.Relation

/-!
# Who waits for whom

* `WaitsFor.Acyclic.insert` : a new edge closes no circle, if its end does not wait for its start.
* `WaitsFor.follow_eq_false`, `WaitsFor.isSome_follow` : when each waits for one other at most,
  going from one to the next one decides that, and comes to an end when there is no circle.
-/

namespace LxApi32

namespace WaitsFor

open Relation (TransGen ReflTransGen)

variable {O : Type*} {r r' : O → O → Prop} {u v w : O}

/-- Nobody waits for himself. -/
def Acyclic (r : O → O → Prop) : Prop := ∀ o, ¬ TransGen r o o

theorem Acyclic.mono (h : Acyclic r) (hr : ∀ a b, r' a b → r a b) : Acyclic r' :=
  fun o ho => h o (TransGen.mono hr o o ho)

/-- A way with the new edge is an old one, or goes through it once. -/
theorem transGen_insert (hv : ¬ ReflTransGen r v u) (hr : ∀ a b, r' a b → r a b ∨ a = u ∧ b = v)
    {a b : O} (h : TransGen r' a b) :
    TransGen r a b ∨ ReflTransGen r a u ∧ ReflTransGen r v b := by
  induction h with
  | single h =>
    rcases hr _ _ h with h | ⟨rfl, rfl⟩
    exacts [.inl (.single h), .inr ⟨.refl, .refl⟩]
  | tail _ h ih =>
    rcases hr _ _ h with h | ⟨rfl, rfl⟩
    · exact ih.imp (fun ih => ih.tail h) fun ih => ⟨ih.1, ih.2.tail h⟩
    · rcases ih with ih | ih
      exacts [.inr ⟨ih.to_reflTransGen, .refl⟩, absurd ih.2 hv]

/-- **A new edge.** -/
theorem Acyclic.insert (h : Acyclic r) (hv : ¬ ReflTransGen r v u)
    (hr : ∀ a b, r' a b → r a b ∨ a = u ∧ b = v) : Acyclic r' := by
  intro o ho
  rcases transGen_insert hv hr ho with ho | ⟨hou, hvo⟩
  exacts [h o ho, hv (hvo.trans hou)]

variable [DecidableEq O] {next : O → Option O}

/-- Go on from `v`, for some steps: is `u` on the way? -/
def follow (next : O → Option O) (u : O) : ℕ → O → Option Bool
  | 0, _ => none
  | n + 1, v =>
    if u = v then some true
    else
      match next v with
      | none => some false
      | some w => follow next u n w

/-- **There is no way** if the walk does not find one. -/
theorem follow_eq_false {n : ℕ} (h : follow next u n v = some false) :
    ¬ ReflTransGen (fun a b => next a = some b) v u := by
  induction n generalizing v with
  | zero => cases h
  | succ n ih =>
    rw [follow] at h
    split at h
    · cases h
    next hne =>
      intro hway
      rcases hway.cases_head with heq | ⟨w, hw, hway⟩
      · exact hne heq.symm
      · rw [hw] at h
        exact ih h hway

/-- **The walk ends.** -/
theorem isSome_follow (hacyclic : Acyclic fun a b => next a = some b) {l : List O} {n : ℕ}
    (hl : ∀ a b, ReflTransGen (fun a b => next a = some b) v a → next a = some b → a ∈ l)
    (hn : l.length < n) : (follow next u n v).isSome := by
  induction n generalizing v l with
  | zero => exact absurd hn (Nat.not_lt_zero _)
  | succ n ih =>
    rw [follow]
    split
    · rfl
    · cases hw : next v with
      | none => rfl
      | some w =>
        have hv : v ∈ l := hl v w .refl hw
        refine ih (l := l.erase v) (fun a b hway hb => ?_) ?_
        · refine (List.mem_erase_of_ne fun heq => ?_).2 (hl a b (.head hw hway) hb)
          exact hacyclic v (.head' hw (heq ▸ hway))
        · have := List.length_erase_of_mem hv
          have := List.length_pos_of_mem hv
          omega

end WaitsFor

end LxApi32
