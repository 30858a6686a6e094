import LxApi32.Lib.Poke
import LxApi32.Lxafs.Vsprintf

/-!
# The names of attributes in the daemon

The daemon has no `sprintf` of its own and builds the names of the attributes of a link list with
`simple_d_sprintf`, character by character.

* `dSprintf_eq` : it writes the format with each `%d` replaced, a `0`, and nothing else.
* `eaNames_agree` : so the names are those of the driver.
-/

namespace LxApi32

open CString Decimal

/-- `tmp` after `_itoa(d,tmp,10)`. -/
def itoaTmp (d : ULONG) : Bytes := strcpy (List.replicate 20 0) (decimalInt d.toInt)

/-- The loop `while(tmp[c])`: `j` and the memory at `buf` after it. -/
def copyTmp : Bytes → ℤ → (ℤ → UInt8) → ℤ × (ℤ → UInt8)
  | [], j, buf => (j, buf)
  | ch :: tmp, j, buf =>
    if ch ≠ 0 then copyTmp tmp (j + 1) (Function.update buf j ch) else (j, buf)

/-- The loop `while(fmt[i])`, if it ends within some number of rounds. -/
def dSprintfLoop (fmt tmp : Bytes) : ℕ → ℕ → ℤ → (ℤ → UInt8) → Option (ℤ × (ℤ → UInt8))
  | 0, _, _, _ => none
  | rounds + 1, i, j, buf =>
    if fmt.getD i 0 = 0 then some (j, buf)
    else if fmt.getD i 0 = 37 ∧ fmt.getD (i + 1) 0 = 100 then
      let r := copyTmp tmp j buf
      let j := r.1 - 1
      let i := i + 1
      dSprintfLoop fmt tmp rounds (i + 1) (j + 1) r.2
    else dSprintfLoop fmt tmp rounds (i + 1) (j + 1) (Function.update buf j (fmt.getD i 0))

/-- `simple_d_sprintf`: the memory at `buf`, if its loop ends within some number of rounds. -/
def dSprintf (rounds : ℕ) (buf : ℤ → UInt8) (fmt : Bytes) (d : ULONG) : Option (ℤ → UInt8) :=
  (dSprintfLoop fmt (itoaTmp d) rounds 0 0 buf).map fun r => Function.update r.2 r.1 0

/-! ### The digits -/

theorem noNul_decimalInt (d : ℤ) : NoNul (decimalInt d) := by
  cases d with
  | ofNat n => exact noNul_decimal n
  | negSucc n =>
    intro c hc
    rcases List.mem_cons.1 hc with rfl | hc
    · decide
    · exact noNul_decimal (n + 1) c hc

theorem str_itoaTmp (d : ULONG) : str (itoaTmp d) = decimalInt d.toInt := by
  rw [itoaTmp, strcpy, str_append_zero (noNul_str _), (noNul_decimalInt _).str_eq]

theorem length_decimalInt_le {d : ℤ} (h : d.natAbs < 10 ^ 10) : (decimalInt d).length ≤ 11 := by
  have hten {n : ℕ} (hn : n < 10 ^ 10) : (decimal n).length ≤ 10 := by
    rw [decimal, List.length_map]
    exact (Nat.length_toDigits_le_iff (by omega) (by omega)).2 hn
  cases d with
  | ofNat n => exact (hten h).trans (by omega)
  | negSucc n => exact Nat.succ_le_succ (hten h)

theorem length_decimalInt_toInt (d : ULONG) : (decimalInt d.toInt).length ≤ 11 := by
  have hlt := d.isLt
  have hint := d.toInt_eq_toNat_cond
  apply length_decimalInt_le
  split_ifs at hint <;> omega

/-- The digits fit `tmp`. -/
theorem length_itoaTmp (d : ULONG) : (itoaTmp d).length = 20 := by
  have hlen := length_decimalInt_toInt d
  rw [itoaTmp, length_strcpy, List.length_replicate, strlen, (noNul_decimalInt _).str_eq]
  omega

theorem copyTmp_eq (tmp : Bytes) (j : ℤ) (buf : ℤ → UInt8) :
    copyTmp tmp j buf = (j + strlen tmp, poke j (str tmp) buf) := by
  induction tmp generalizing j buf with
  | nil => simp [copyTmp, strlen]
  | cons ch tmp ih =>
    rw [copyTmp]
    by_cases hch : ch = 0
    · subst hch
      simp [strlen]
    · rw [if_pos hch, ih, strlen, strlen, str_cons ch tmp hch, poke_cons, List.length_cons]
      congr 1
      omega

/-! ### The format -/

/-- The string from a position on begins with the character there. -/
theorem str_drop_eq (fmt : Bytes) (i : ℕ) :
    str (fmt.drop i) = if fmt.getD i 0 = 0 then [] else fmt.getD i 0 :: str (fmt.drop (i + 1)) := by
  have hhead : (fmt.drop i).headD 0 = fmt.getD i 0 := by
    rw [List.headD_eq_head?_getD, List.head?_drop, List.getD_eq_getElem?_getD]
  rw [str_eq_head, hhead, List.tail_drop]

/-- The loop writes the rest of the format with each `%d` replaced. -/
theorem dSprintfLoop_eq (fmt tmp : Bytes) {rounds i : ℕ} (hrounds : strlen (fmt.drop i) < rounds)
    (j : ℤ) (buf : ℤ → UInt8) :
    dSprintfLoop fmt tmp rounds i j buf =
      some (j + (expandD (str tmp) (str (fmt.drop i))).length,
        poke j (expandD (str tmp) (str (fmt.drop i))) buf) := by
  induction rounds generalizing i j buf with
  | zero => omega
  | succ rounds ih =>
    rw [strlen, str_drop_eq] at hrounds
    rw [dSprintfLoop, str_drop_eq]
    by_cases h0 : fmt.getD i 0 = 0
    · rw [if_pos h0, if_pos h0, expandD, poke_nil, List.length_nil, Nat.cast_zero, Int.add_zero]
    rw [if_neg h0] at hrounds
    rw [if_neg h0, if_neg h0]
    have hnext := str_drop_eq fmt (i + 1)
    by_cases hd : fmt.getD i 0 = 37 ∧ fmt.getD (i + 1) 0 = 100
    · -- `j` is counted down and up again
      have hne : ¬ fmt.getD (i + 1) 0 = 0 := by
        rw [hd.2]
        decide
      rw [if_neg hne, hd.2] at hnext
      rw [hnext, List.length_cons, List.length_cons] at hrounds
      have hexpand : expandD (str tmp) (fmt.getD i 0 :: str (fmt.drop (i + 1))) =
          str tmp ++ expandD (str tmp) (str (fmt.drop (i + 1 + 1))) := by
        rw [hnext, hd.1]
        rfl
      rw [if_pos hd, copyTmp_eq, hexpand, poke_append]
      simp only [Int.sub_add_cancel]
      rw [ih (by rw [strlen]; omega), List.length_append, strlen, Nat.cast_add, Int.add_assoc]
    · have hhead : (str (fmt.drop (i + 1))).headD 0 = fmt.getD (i + 1) 0 := by
        rw [hnext]
        split_ifs with hnul
        · exact hnul.symm
        · rfl
      rw [List.length_cons] at hrounds
      rw [if_neg hd, ih (by rw [strlen]; omega), expandD_cons_of_not (by rwa [hhead]), poke_cons,
        List.length_cons]
      congr 2
      omega

/-- What `simple_d_sprintf` writes. -/
theorem dSprintf_eq {rounds : ℕ} (buf : ℤ → UInt8) (fmt : Bytes) (hrounds : strlen fmt < rounds)
    (d : ULONG) :
    dSprintf rounds buf fmt d =
      some (poke 0 (expandD (decimalInt d.toInt) (str fmt) ++ [0]) buf) := by
  rw [dSprintf, dSprintfLoop_eq fmt (itoaTmp d) hrounds, str_itoaTmp, List.drop_zero,
    Option.map_some, poke_append, poke_singleton]

/-! ### The names of the links -/

theorem str_lxeanLinkedby : str lxeanLinkedby = lxeanLinkedby := rfl

theorem expandD_lxeanLinkedby (i : ℤ) : expandD (decimalInt i) lxeanLinkedby = linkedBy i := by
  rw [linkedBy, sprintf_eq_simpleDSprintf, simpleDSprintf]

/-- The names in the driver. -/
theorem sprintf_lxeanLinkedby (i : ULONG) :
    Vsprintf.sprintf lxeanLinkedby [.word i] = some (linkedBy i.toInt ++ [0]) := by
  have honly : Vsprintf.OnlyD (str lxeanLinkedby) := by
    rw [str_lxeanLinkedby, lxeanLinkedby]
    simp [Vsprintf.OnlyD]
  have hlen : (linkedBy i.toInt).length ≤ 2 ^ 31 - 2 := by
    have hle := length_decimalInt_toInt i
    rw [linkedBy_eq, List.length_append]
    simp only [List.length_cons, List.length_nil]
    omega
  have hprint := Vsprintf.sprintf_onlyD i honly (n := 1) (by decide)
  rw [str_lxeanLinkedby, expandD_lxeanLinkedby, List.take_of_length_le hlen] at hprint
  exact hprint

/-- **The same names in the driver and in the daemon.**  `simple_d_sprintf` writes the format with
each `%d` replaced by the decimal text, a `0`, and nothing else; for the format of the links, this
is what `sprintf` of the driver writes. -/
theorem eaNames_agree (buf : ℤ → UInt8) (fmt : Bytes) (d : ULONG) :
    (∀ rounds > strlen fmt, dSprintf rounds buf fmt d =
      some (poke 0 (expandD (decimalInt d.toInt) (str fmt) ++ [0]) buf)) ∧
    ∀ i : ULONG, ∃ name, Vsprintf.sprintf lxeanLinkedby [.word i] = some name ∧
      ∀ rounds > strlen lxeanLinkedby,
        dSprintf rounds buf lxeanLinkedby i = some (poke 0 name buf) := by
  refine ⟨fun rounds hrounds => dSprintf_eq buf fmt hrounds d, fun i => ?_⟩
  refine ⟨_, sprintf_lxeanLinkedby i, fun rounds hrounds => ?_⟩
  rw [dSprintf_eq buf lxeanLinkedby hrounds, str_lxeanLinkedby, expandD_lxeanLinkedby]

end LxApi32
