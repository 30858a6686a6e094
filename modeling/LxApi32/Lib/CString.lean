import Mathlib.Data.Int.Notation
import Mathlib.Data.List.TakeWhile

/-!
# C strings in buffers

A buffer is a list of bytes, and the string in it is what stands before the first `0`.  The
functions are those of `string.h`, as functions from buffers to buffers; a write past the end
of a buffer makes the list longer, so a caller that wants to exclude it looks at the length.

## Main results

* `str_strncpy`, `str_strcat`, `str_strncat`, `str_drop` : the strings that the functions leave,
  when they fit.
* `length_strcpy`, `length_strncpy`, `length_strncat` : how much of a buffer they write.
* `strncmp_strlen` : `strncmp` with the length of its second argument tests for a prefix.
-/

namespace LxApi32

/-- A buffer of bytes. -/
abbrev Bytes := List UInt8

namespace CString

/-- The string in a buffer. -/
def str (b : Bytes) : Bytes := b.takeWhile (· != 0)

/-- `strlen` -/
def strlen (b : Bytes) : ℕ := (str b).length

/-- `strcpy(dst,src)` -/
def strcpy (dst src : Bytes) : Bytes := str src ++ 0 :: dst.drop (strlen src + 1)

/-- `strncpy(dst,src,n)`: at most `n` bytes of the string, padded with `0` up to `n`. -/
def strncpy (dst src : Bytes) (n : ℕ) : Bytes :=
  (str src).take n ++ List.replicate (n - strlen src) 0 ++ dst.drop n

/-- `strncat(dst,src,n)`: at most `n` bytes of the string, and a `0`. -/
def strncat (dst src : Bytes) (n : ℕ) : Bytes :=
  str dst ++ (str src).take n ++ 0 :: dst.drop (strlen dst + min n (strlen src) + 1)

/-- `strcat(dst,src)` -/
def strcat (dst src : Bytes) : Bytes := strncat dst src (strlen src)

/-- `strncmp(a,b,n)`: the difference of the first two bytes that differ, up to the end of the
strings and `n` bytes at most. -/
def strncmp : Bytes → Bytes → ℕ → ℤ
  | _, _, 0 => 0
  | a, b, n + 1 =>
    let ca := a.headD 0
    let cb := b.headD 0
    if ca ≠ cb then ca.toNat - cb.toNat
    else if ca = 0 then 0
    else strncmp a.tail b.tail n

/-- `strcmp(a,b)` -/
def strcmp (a b : Bytes) : ℤ := strncmp a b (max (strlen a) (strlen b) + 1)

/-- A byte list without `0`. -/
def NoNul (s : Bytes) : Prop := ∀ c ∈ s, c ≠ 0

instance (s : Bytes) : Decidable (NoNul s) := List.decidableBAll (· ≠ 0) s

variable {s t b dst src : Bytes} {n : ℕ}

/-! ### The string in a buffer -/

theorem noNul_str (b : Bytes) : NoNul (str b) := fun c hc => by
  simpa using List.mem_takeWhile_imp hc

theorem NoNul.append (hs : NoNul s) (ht : NoNul t) : NoNul (s ++ t) := fun c hc =>
  (List.mem_append.1 hc).elim (hs c) (ht c)

theorem NoNul.of_append_right (h : NoNul (s ++ t)) : NoNul t := fun c hc =>
  h c (List.mem_append_right _ hc)

theorem NoNul.take (h : NoNul s) (n : ℕ) : NoNul (s.take n) := fun c hc =>
  h c (List.mem_of_mem_take hc)

theorem NoNul.drop (h : NoNul s) (n : ℕ) : NoNul (s.drop n) := fun c hc =>
  h c (List.mem_of_mem_drop hc)

theorem str_append (hs : NoNul s) (t : Bytes) : str (s ++ t) = s ++ str t :=
  List.takeWhile_append_of_pos fun c hc => bne_iff_ne.2 (hs c hc)

@[simp] theorem str_cons_zero (t : Bytes) : str (0 :: t) = [] := rfl

@[simp] theorem str_nil : str [] = [] := rfl

theorem str_append_zero (hs : NoNul s) (t : Bytes) : str (s ++ 0 :: t) = s := by
  rw [str_append hs, str_cons_zero, List.append_nil]

theorem NoNul.str_eq (hs : NoNul s) : str s = s := by
  have := str_append hs []
  rwa [List.append_nil, str_nil, List.append_nil] at this

@[simp] theorem str_str (b : Bytes) : str (str b) = str b := (noNul_str b).str_eq

/-- A buffer is its string, alone or with a `0` behind it. -/
theorem eq_str_append (b : Bytes) : b = str b ∨ ∃ t, b = str b ++ 0 :: t := by
  induction b with
  | nil => exact .inl rfl
  | cons c b ih =>
    by_cases hc : c = 0
    · exact .inr ⟨b, by rw [hc]; rfl⟩
    · have hstr : str (c :: b) = c :: str b := List.takeWhile_cons_of_pos (bne_iff_ne.2 hc)
      rw [hstr]
      exact ih.imp (fun h => by rw [← h]) fun ⟨t, ht⟩ => ⟨t, by rw [List.cons_append, ← ht]⟩

/-- The string from position `n` of a buffer on. -/
theorem str_drop (hn : n ≤ strlen b) : str (b.drop n) = (str b).drop n := by
  rcases eq_str_append b with h | ⟨t, h⟩
  · rw [h, str_str]
    exact ((noNul_str b).drop n).str_eq
  · have hdrop : b.drop n = (str b).drop n ++ 0 :: t :=
      (congrArg (List.drop n) h).trans (List.drop_append_of_le_length hn)
    rw [hdrop, str_append_zero ((noNul_str b).drop n)]

/-! ### Copying and appending -/

/-- A string that is shorter than `n` is copied whole. -/
theorem str_strncpy (h : strlen src < n) : str (strncpy dst src n) = str src := by
  have hrep : List.replicate (n - strlen src) (0 : UInt8) =
      0 :: List.replicate (n - strlen src - 1) 0 := by
    rw [← List.replicate_succ]
    congr 1
    omega
  rw [strncpy, List.take_of_length_le (Nat.le_of_lt h), hrep, List.append_assoc, List.cons_append]
  exact str_append_zero (noNul_str src) _

/-- The string from any position of such a copy on. -/
theorem str_strncpy_nil_drop (hs : NoNul s) (h : s.length < n) (k : ℕ) :
    str ((strncpy [] s n).drop k) = s.drop k := by
  have hlen : strlen s = s.length := congrArg List.length hs.str_eq
  rw [strncpy, hs.str_eq, List.take_of_length_le (Nat.le_of_lt h), hlen, List.drop_nil,
    List.append_nil, List.drop_append, List.drop_replicate]
  cases n - s.length - (k - s.length) with
  | zero => exact (congrArg str (List.append_nil _)).trans (hs.drop k).str_eq
  | succ m => exact str_append_zero (hs.drop k) _

theorem str_strncat (dst src : Bytes) (n : ℕ) :
    str (strncat dst src n) = str dst ++ (str src).take n :=
  str_append_zero ((noNul_str dst).append ((noNul_str src).take n)) _

@[simp] theorem str_strcat (dst src : Bytes) : str (strcat dst src) = str dst ++ str src := by
  rw [strcat, str_strncat, List.take_of_length_le (Nat.le_refl (strlen src))]

theorem strlen_le (b : Bytes) : strlen b ≤ b.length := (List.takeWhile_sublist _).length_le

/-! ### How long a buffer gets -/

theorem length_strcpy (dst src : Bytes) :
    (strcpy dst src).length = max dst.length (strlen src + 1) := by
  rw [strcpy, List.length_append, List.length_cons, List.length_drop, ← strlen]
  omega

theorem length_strncpy (dst src : Bytes) (n : ℕ) :
    (strncpy dst src n).length = max dst.length n := by
  rw [strncpy, List.length_append, List.length_append, List.length_take, List.length_replicate,
    List.length_drop, ← strlen]
  omega

theorem strlen_strncat (dst src : Bytes) (n : ℕ) :
    strlen (strncat dst src n) = strlen dst + min n (strlen src) := by
  rw [strlen, str_strncat, List.length_append, List.length_take, ← strlen, ← strlen]

/-- `strncat` may write one byte more than the string and `n`. -/
theorem length_strncat (dst src : Bytes) (n : ℕ) :
    (strncat dst src n).length = max dst.length (strlen dst + min n (strlen src) + 1) := by
  have hle := strlen_le dst
  rw [strncat, List.length_append, List.length_append, List.length_cons, List.length_drop,
    List.length_take, ← strlen, ← strlen]
  omega

theorem strlen_strcat (dst src : Bytes) : strlen (strcat dst src) = strlen dst + strlen src := by
  rw [strcat, strlen_strncat, Nat.min_self]

theorem length_strcat (dst src : Bytes) :
    (strcat dst src).length = max dst.length (strlen dst + strlen src + 1) := by
  rw [strcat, length_strncat, Nat.min_self]

/-! ### Comparing -/

theorem str_cons (c : UInt8) (b : Bytes) (hc : c ≠ 0) : str (c :: b) = c :: str b :=
  List.takeWhile_cons_of_pos (bne_iff_ne.2 hc)

/-- The string of a buffer begins with the first byte, if that is not `0`. -/
theorem str_eq_head (b : Bytes) :
    str b = if b.headD 0 = 0 then [] else b.headD 0 :: str b.tail := by
  cases b with
  | nil => rfl
  | cons c b =>
    by_cases hc : c = 0
    · simp [hc]
    · simp [hc, str_cons]

theorem strncmp_eq_zero_iff (a b : Bytes) (n : ℕ) :
    strncmp a b n = 0 ↔ (str a).take n = (str b).take n := by
  induction n generalizing a b with
  | zero => simp [strncmp]
  | succ n ih =>
    rw [strncmp, str_eq_head a, str_eq_head b]
    by_cases hne : a.headD 0 = b.headD 0
    · by_cases h0 : b.headD 0 = 0
      · simp only [hne, h0, ne_eq, not_true_eq_false, ↓reduceIte]
      · simp only [hne, h0, ne_eq, not_true_eq_false, ↓reduceIte, List.take_succ_cons,
          List.cons.injEq, true_and]
        exact ih a.tail b.tail
    · have hdiff : (a.headD 0).toNat ≠ (b.headD 0).toNat := fun h => hne (UInt8.toNat_inj.1 h)
      simp only [ne_eq, hne, not_false_eq_true, ↓reduceIte]
      refine iff_of_false (by omega) fun h => hne ?_
      split_ifs at h with ha hb hb
      · rw [ha, hb]
      · simp at h
      · simp at h
      · exact (List.cons.inj h).1

theorem strncmp_self (a : Bytes) (n : ℕ) : strncmp a a n = 0 := (strncmp_eq_zero_iff a a n).2 rfl

theorem not_strncmp_self_pos (a : Bytes) (n : ℕ) : ¬ 0 < strncmp a a n := by
  rw [strncmp_self]
  exact Int.lt_irrefl 0

/-- Only the strings are compared. -/
theorem strncmp_str (a b : Bytes) (n : ℕ) : strncmp (str a) (str b) n = strncmp a b n := by
  induction n generalizing a b with
  | zero => rfl
  | succ n ih =>
    have hhead : ∀ b : Bytes, (str b).headD 0 = b.headD 0 := fun b => by
      rw [str_eq_head b]
      split_ifs with h
      · exact h.symm
      · rfl
    have htail : ∀ b : Bytes, b.headD 0 ≠ 0 → (str b).tail = str b.tail := fun b hb => by
      rw [str_eq_head b, if_neg hb, List.tail_cons]
    rw [strncmp, strncmp, hhead, hhead]
    by_cases hne : a.headD 0 = b.headD 0
    · by_cases h0 : a.headD 0 = 0
      · simp only [← hne, h0, ne_eq, not_true_eq_false, ↓reduceIte]
      · simp only [← hne, h0, ne_eq, not_true_eq_false, ↓reduceIte]
        rw [htail a h0, htail b (hne ▸ h0), ih]
    · simp only [ne_eq, hne, not_false_eq_true, ↓reduceIte]

/-- `!strncmp(a,b,strlen(b))`: the string `b` is a prefix of the string `a`. -/
theorem strncmp_strlen (a b : Bytes) : strncmp a b (strlen b) = 0 ↔ str b <+: str a := by
  rw [strncmp_eq_zero_iff, List.take_of_length_le (Nat.le_refl (strlen b)),
    List.prefix_iff_eq_take]
  exact eq_comm

theorem strcmp_eq_zero_iff (a b : Bytes) : strcmp a b = 0 ↔ str a = str b := by
  rw [strcmp, strncmp_eq_zero_iff, List.take_of_length_le, List.take_of_length_le]
  · exact Nat.le_succ_of_le (Nat.le_max_right ..)
  · exact Nat.le_succ_of_le (Nat.le_max_left ..)

end CString

end LxApi32
