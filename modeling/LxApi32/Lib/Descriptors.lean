import Mathlib.Data.List.AList

/-!
# Tables of descriptors

Open files are known to a process by numbers.  Who opens a file gets the lowest number that is not
in use, or asks for a number, and then the file that has been open under it is closed.

## Main definitions

* `lowest used n k` : the search for a number from `n` on that is not in a list.
* `Descriptors F` : the files that are open, of a type `F`, with their numbers.
* `Descriptors.openLowest`, `Descriptors.dup`, `Descriptors.dup2` : the ways to get a number.

## Main results

* `lowest_spec` : the search finds the lowest number when it has as many steps as the list is long.
* `Descriptors.openLowest_notMem` : what is opened gets a number that is not open.
* `Descriptors.dup2_eq_some` : a number that is asked for is another one of the same file then.
-/

namespace LxApi32

/-! ### The lowest number -/

/-- Count up from `n` while the number is in the list, `k` times at most. -/
def lowest (used : List ℤ) : ℤ → ℕ → ℤ
  | n, 0 => n
  | n, k + 1 => if n ∈ used then lowest used (n + 1) k else n

/-- Going on to the next number leaves less of the list. -/
theorem length_filter_succ_lt {used : List ℤ} {n : ℤ} (hn : n ∈ used) :
    (used.filter fun m => n + 1 ≤ m).length < (used.filter fun m => n ≤ m).length := by
  have hsub : (used.filter fun m => n + 1 ≤ m) =
      (used.filter fun m => n ≤ m).filter fun m => n + 1 ≤ m := by
    rw [List.filter_filter]
    refine List.filter_congr fun m _ => ?_
    rw [Bool.eq_iff_iff, Bool.and_eq_true, decide_eq_true_iff, decide_eq_true_iff]
    omega
  rw [hsub]
  have hle := List.length_filter_le (fun m => decide (n + 1 ≤ m)) (used.filter fun m => n ≤ m)
  refine lt_of_le_of_ne hle fun heq => ?_
  have hall := List.length_filter_eq_length_iff.1 heq n (List.mem_filter.2 ⟨hn, by simp⟩)
  have := of_decide_eq_true hall
  omega

theorem lowest_spec_of_le {used : List ℤ} (n : ℤ) (k : ℕ)
    (hk : (used.filter fun m => n ≤ m).length ≤ k) :
    n ≤ lowest used n k ∧ lowest used n k ∉ used ∧ ∀ m, n ≤ m → m < lowest used n k → m ∈ used := by
  induction k generalizing n with
  | zero =>
    refine ⟨Int.le_refl n, fun hmem => ?_, fun m hle hlt => absurd hle (Int.not_le.2 hlt)⟩
    have hnil := List.length_eq_zero_iff.1 (Nat.le_zero.1 hk)
    exact List.filter_eq_nil_iff.1 hnil n hmem (by simp)
  | succ k ih =>
    unfold lowest
    split_ifs with hn
    · have hlt := length_filter_succ_lt hn
      obtain ⟨hle, hnot, hall⟩ := ih (n + 1) (by omega)
      refine ⟨by omega, hnot, fun m hm hmlt => ?_⟩
      by_cases heq : m = n
      · exact heq ▸ hn
      · exact hall m (by omega) hmlt
    · exact ⟨Int.le_refl n, hn, fun m hle hlt => absurd hle (Int.not_le.2 hlt)⟩

/-- **The lowest number that is not in the list.** -/
theorem lowest_spec (used : List ℤ) (n : ℤ) :
    n ≤ lowest used n used.length ∧ lowest used n used.length ∉ used ∧
      ∀ m, n ≤ m → m < lowest used n used.length → m ∈ used :=
  lowest_spec_of_le n used.length (List.length_filter_le ..)

/-! ### Tables -/

/-- The open files with their numbers. -/
abbrev Descriptors (F : Type*) := AList fun _ : ℤ => F

namespace Descriptors

variable {F : Type*} (t : Descriptors F) {n m : ℤ}

/-- A file is opened. -/
def openLowest (f : F) : ℤ × Descriptors F :=
  let n := lowest t.keys 0 t.keys.length
  (n, t.insert n f)

/-- `dup` -/
def dup (n : ℤ) : Option (ℤ × Descriptors F) := (t.lookup n).map t.openLowest

/-- `dup2` -/
def dup2 (n m : ℤ) : Option (Descriptors F) :=
  if m < 0 then none else (t.lookup n).map fun f => t.insert m f

theorem openLowest_notMem (f : F) : (t.openLowest f).1 ∉ t :=
  mt AList.mem_keys.1 (lowest_spec t.keys 0).2.1

theorem zero_le_openLowest (f : F) : 0 ≤ (t.openLowest f).1 := (lowest_spec t.keys 0).1

variable {t} {t' : Descriptors F}

/-- `dup` opens the file once more. -/
theorem dup_eq_some {r : ℤ × Descriptors F} (h : t.dup n = some r) : ∃ f, r = t.openLowest f := by
  obtain ⟨f, -, rfl⟩ := Option.map_eq_some_iff.1 h
  exact ⟨f, rfl⟩

/-- `dup2` opens the file under the number that it is asked for. -/
theorem dup2_eq_some (h : t.dup2 n m = some t') : 0 ≤ m ∧ ∃ f ∈ t.lookup n, t' = t.insert m f := by
  unfold dup2 at h
  split_ifs at h with hm
  obtain ⟨f, hf, rfl⟩ := Option.map_eq_some_iff.1 h
  exact ⟨by omega, f, hf, rfl⟩

end Descriptors

end LxApi32
