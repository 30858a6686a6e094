import LxApi32.Lib.CString
import Mathlib.Data.Nat.Init

/-!
# Decimal texts

The text of a number in bytes, as `%d` prints it, and the number that a text of digits stands for.

* `value_decimal` : reading back the text of a number.
* `decimal_inj` : different numbers have different texts.
* `decimal_eq_cons` : the text of a number other than `0` has no `0` in front.
-/

namespace LxApi32

namespace Decimal

open CString

/-- The character of a digit. -/
def digit (d : ℕ) : UInt8 := UInt8.ofNat (48 + d)

/-- The text of a number. -/
def decimal (n : ℕ) : Bytes := (Nat.toDigits 10 n).map fun c => UInt8.ofNat c.toNat

/-- The text of an integer. -/
def decimalInt : ℤ → Bytes
  | .ofNat n => decimal n
  | .negSucc n => 45 :: decimal (n + 1)

/-- One more digit behind a number. -/
def shift (n : ℕ) (c : UInt8) : ℕ := 10 * n + (c.toNat - 48)

/-- The number that a text of digits stands for. -/
def value (s : Bytes) : ℕ := s.foldl shift 0

/-- A text of digits. -/
def IsDigits (s : Bytes) : Prop := ∀ c ∈ s, ∃ d < 10, c = digit d

/-! ### Digits -/

theorem toNat_digit {d : ℕ} (h : d < 10) : (digit d).toNat = 48 + d := by
  rw [digit, UInt8.toNat_ofNat', Nat.mod_eq_of_lt]
  omega

theorem digit_ne_zero {d : ℕ} (h : d < 10) : digit d ≠ 0 := by
  intro h0
  have hd := toNat_digit h
  rw [h0] at hd
  have hz : (0 : UInt8).toNat = 0 := rfl
  omega

theorem shift_digit {d : ℕ} (h : d < 10) (n : ℕ) : shift n (digit d) = 10 * n + d := by
  rw [shift, toNat_digit h, Nat.add_sub_cancel_left]

theorem IsDigits.noNul {s : Bytes} (h : IsDigits s) : NoNul s := by
  intro c hc
  obtain ⟨d, hd, rfl⟩ := h c hc
  exact digit_ne_zero hd

/-! ### The text of a number -/

theorem decimal_of_lt {n : ℕ} (h : n < 10) : decimal n = [digit n] := by
  rw [decimal, Nat.toDigits_of_lt_base h, List.map_singleton, Nat.toNat_digitChar_of_lt_ten h,
    digit]

theorem decimal_of_le {n : ℕ} (h : 10 ≤ n) : decimal n = decimal (n / 10) ++ [digit (n % 10)] := by
  have hlt : n % 10 < 10 := Nat.mod_lt _ (by omega)
  rw [decimal, Nat.toDigits_of_base_le (by omega) h, List.map_append, List.map_singleton,
    Nat.toNat_digitChar_of_lt_ten hlt, decimal, digit]

/-- A rule of induction: the last digit of a number comes last in its text. -/
theorem decimal_induction {P : ℕ → Bytes → Prop} (hlt : ∀ n < 10, P n [digit n])
    (hle : ∀ n d t, 0 < n → d < 10 → P n t → P (10 * n + d) (t ++ [digit d])) (n : ℕ) :
    P n (decimal n) := by
  induction n using Nat.strongRecOn with
  | ind n ih =>
    by_cases h : n < 10
    · rw [decimal_of_lt h]
      exact hlt n h
    · have hn := Nat.div_add_mod n 10
      have := hle (n / 10) (n % 10) _ (by omega) (by omega) (ih (n / 10) (by omega))
      rwa [hn, ← decimal_of_le (by omega)] at this

theorem isDigits_decimal (n : ℕ) : IsDigits (decimal n) := by
  refine decimal_induction (P := fun _ s => IsDigits s) ?_ ?_ n
  · intro n hn c hc
    exact ⟨n, hn, List.mem_singleton.1 hc⟩
  · intro n d t _ hd ih c hc
    rcases List.mem_append.1 hc with hc | hc
    · exact ih c hc
    · exact ⟨d, hd, List.mem_singleton.1 hc⟩

theorem noNul_decimal (n : ℕ) : NoNul (decimal n) := (isDigits_decimal n).noNul

/-- Reading the text of a number gives the number. -/
@[simp] theorem value_decimal (n : ℕ) : value (decimal n) = n := by
  refine decimal_induction (P := fun n s => value s = n) ?_ ?_ n
  · intro n hn
    rw [value, List.foldl_cons, shift_digit hn]
    exact Nat.zero_add n
  · intro n d t _ hd ih
    rw [value, List.foldl_append, List.foldl_cons, List.foldl_nil, shift_digit hd]
    rw [value] at ih
    rw [ih]

/-- Different numbers have different texts. -/
theorem decimal_inj {m n : ℕ} : decimal m = decimal n ↔ m = n := by
  refine ⟨fun h => ?_, congrArg decimal⟩
  rw [← value_decimal m, h, value_decimal]

/-- The text of a number begins with a digit other than `0`. -/
theorem decimal_eq_cons {n : ℕ} (h : 0 < n) :
    ∃ d t, (0 < d ∧ d < 10) ∧ decimal n = digit d :: t := by
  refine decimal_induction (P := fun n s => 0 < n → ∃ d t, (0 < d ∧ d < 10) ∧ s = digit d :: t)
    ?_ ?_ n h
  · intro n hn h0
    exact ⟨n, [], ⟨h0, hn⟩, rfl⟩
  · intro n d t h0 _ ih _
    obtain ⟨d', t', hd', rfl⟩ := ih h0
    exact ⟨d', t' ++ [digit d], hd', rfl⟩

theorem decimal_ne_nil (n : ℕ) : decimal n ≠ [] := by
  refine decimal_induction (P := fun _ s => s ≠ []) ?_ ?_ n
  · intro n _
    exact List.cons_ne_nil _ _
  · intro n d t _ _ _
    exact List.append_ne_nil_of_right_ne_nil _ (List.cons_ne_nil _ _)

/-- A sign is no digit. -/
theorem decimalInt_inj {m n : ℤ} : decimalInt m = decimalInt n ↔ m = n := by
  refine ⟨fun h => ?_, congrArg decimalInt⟩
  have hsign (a b : ℕ) : decimal a ≠ 45 :: decimal b := by
    intro hab
    obtain ⟨d, hd, hc⟩ := isDigits_decimal a 45 (hab ▸ List.mem_cons_self)
    have := toNat_digit hd
    rw [← hc] at this
    have h45 : (45 : UInt8).toNat = 45 := rfl
    omega
  cases m with
  | ofNat m =>
    cases n with
    | ofNat n => rw [decimal_inj.1 h]
    | negSucc n => exact absurd h (hsign _ _)
  | negSucc m =>
    cases n with
    | ofNat n => exact absurd h.symm (hsign _ _)
    | negSucc n =>
      have := decimal_inj.1 (List.cons.inj h).2
      rw [Nat.succ.inj this]

end Decimal

end LxApi32
