import Mathlib.Data.List.Perm.Subperm

/-!
# Numbers given out by a counter

Things that are numbered in the order of their creation keep different numbers, however they
are moved about afterwards.

* `Issued.subperm` : moving and dropping numbers keeps them different.
* `Issued.cons` : so does giving out the next one.
-/

namespace LxApi32

/-- The numbers of `l` are different, and a counter that stands at `n` has given them out. -/
structure Issued (l : List ℕ) (n : ℕ) : Prop where
  nodup : l.Nodup
  lt : ∀ t ∈ l, t < n

namespace Issued

variable {l l' : List ℕ} {n : ℕ}

theorem nil : Issued [] n := ⟨.nil, nofun⟩

theorem subperm (h : Issued l n) (hsub : l'.Subperm l) : Issued l' n where
  nodup := by
    obtain ⟨m, hperm, hm⟩ := hsub
    exact hperm.nodup_iff.1 (h.nodup.sublist hm)
  lt t ht := h.lt t (hsub.subset ht)

/-- The same for the numbers of things. -/
theorem subperm_map {α : Type*} {f : α → ℕ} {K K' : List α} (h : Issued (K.map f) n)
    (hsub : K'.Subperm K) : Issued (K'.map f) n := by
  obtain ⟨m, hperm, hm⟩ := hsub
  exact h.subperm ⟨_, hperm.map f, hm.map f⟩

/-- The counter goes on. -/
theorem mono (h : Issued l n) {m : ℕ} (hle : n ≤ m) : Issued l m where
  nodup := h.nodup
  lt t ht := Nat.lt_of_lt_of_le (h.lt t ht) hle

theorem cons (h : Issued l n) (hperm : l'.Perm (n :: l)) : Issued l' (n + 1) where
  nodup := by
    rw [hperm.nodup_iff, List.nodup_cons]
    exact ⟨fun hmem => absurd (h.lt n hmem) (Nat.lt_irrefl n), h.nodup⟩
  lt t ht := by
    rcases List.mem_cons.1 (hperm.subset ht) with rfl | ht
    · exact Nat.lt_succ_self _
    · exact Nat.lt_succ_of_lt (h.lt t ht)

end Issued

end LxApi32
