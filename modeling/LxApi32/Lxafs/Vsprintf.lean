import LxApi32.Lxafs.LinkList

/-!
# Formatted output of the driver

`sprintf` of the driver, which `lxafs_rewrite_linklist` builds the names of attributes with, is that
of Linux: `vsnprintf` goes through the format, and `number` prints the integers.

* `Vsprintf.number_sign` : what `%d` prints.
* `Vsprintf.sprintf_onlyD` : for a format without other conversions, the output is the format with
  each `%d` replaced.
-/

namespace LxApi32

open CString Decimal

namespace Vsprintf

/-- `ZEROPAD`, `SIGN`, `PLUS`, `SPACE`, `LEFT`, `SPECIAL` and `LARGE` -/
structure Flags where
  /-- `ZEROPAD` -/
  zeropad : Bool
  /-- `SIGN` -/
  sign : Bool
  /-- `PLUS` -/
  plus : Bool
  /-- `SPACE` -/
  space : Bool
  /-- `LEFT` -/
  left : Bool
  /-- `SPECIAL` -/
  special : Bool
  /-- `LARGE` -/
  large : Bool
  deriving DecidableEq, Repr

/-- `flags=0` -/
def Flags.zero : Flags := ⟨false, false, false, false, false, false, false⟩

/-- An argument of a conversion. -/
inductive VaArg
  /-- An `int`, a `long` or a `size_t`. -/
  | word (w : ULONG)
  /-- A `long long`. -/
  | longLong (n : BitVec 64)
  /-- A pointer, and the bytes that stand there. -/
  | pointer (p : ULONG) (s : Bytes)
  deriving DecidableEq

/-- The characters of a text. -/
def text (s : String) : Bytes := s.toList.map fun c => UInt8.ofNat c.toNat

/-- `small_digits` -/
def smallDigits : Bytes := text "0123456789abcdefghijklmnopqrstuvwxyz"

/-- `large_digits` -/
def largeDigits : Bytes := text "0123456789ABCDEFGHIJKLMNOPQRSTUVWXYZ"

/-- The loop of `number` that fills `tmp`, the last digit first. -/
def numberLoop (digits : Bytes) (base : ℕ) : ℕ → ℕ → Bytes
  | 0, _ => []
  | k + 1, num =>
    if num = 0 then [] else digits.getD (num % base) 0 :: numberLoop digits base k (num / base)

/-- `number`; `base` is `8`, `10` or `16`.  The loops that write blanks leave `size` below `0`. -/
def number (num : BitVec 64) (base : ℕ) (size precision : ℤ) (type : Flags) : Bytes :=
  let digits := if type.large then largeDigits else smallDigits
  let type := if type.left then { type with zeropad := false } else type
  let c : UInt8 := if type.zeropad then 48 else 32
  let negative := type.sign ∧ num.toInt < 0
  let sign : Bytes :=
    if negative then [45]
    else if type.sign ∧ type.plus then [43]
    else if type.sign ∧ type.space then [32]
    else []
  let num := if negative then -num else num
  let size := size - sign.length
  let size :=
    if type.special then if base = 16 then size - 2 else if base = 8 then size - 1 else size
    else size
  let tmp := if num = 0 then [48] else numberLoop digits base num.toNat num.toNat
  let precision := max precision tmp.length
  let size := size - precision
  let blanks : Bytes :=
    if type.zeropad ∨ type.left then [] else List.replicate size.toNat 32
  let size := if type.zeropad ∨ type.left then size else min size 0 - 1
  let special : Bytes :=
    if type.special then
      if base = 8 then [48] else if base = 16 then [48, digits.getD 33 0] else []
    else []
  let fill : Bytes := if type.left then [] else List.replicate size.toNat c
  let size := if type.left then size else min size 0 - 1
  let zeros : Bytes := List.replicate (precision - tmp.length).toNat 48
  blanks ++ sign ++ special ++ fill ++ zeros ++ tmp.reverse ++ List.replicate size.toNat 32

/-- `isdigit` -/
def isdigit (c : UInt8) : Bool := 48 ≤ c && c ≤ 57

/-- `skip_atoi` -/
def skipAtoi : ℤ → Bytes → ℤ × Bytes
  | i, [] => (i, [])
  | i, c :: s => if isdigit c then skipAtoi (i * 10 + c.toNat - 48) s else (i, c :: s)

/-- The characters `-`, `+`, blank, `#` and `0` behind a `%`. -/
def readFlags : Flags → Bytes → Flags × Bytes
  | flags, [] => (flags, [])
  | flags, c :: fmt =>
    if c = 45 then readFlags { flags with left := true } fmt
    else if c = 43 then readFlags { flags with plus := true } fmt
    else if c = 32 then readFlags { flags with space := true } fmt
    else if c = 35 then readFlags { flags with special := true } fmt
    else if c = 48 then readFlags { flags with zeropad := true } fmt
    else (flags, c :: fmt)

/-- What `vsnprintf` reads of the format and the arguments. -/
structure Input where
  /-- `fmt` -/
  fmt : Bytes
  /-- `args` -/
  args : List VaArg

/-- `field_width`; a negative one among the arguments sets `LEFT`. -/
def readWidth (flags : Flags) (i : Input) : Option (ℤ × Flags × Input) :=
  if isdigit (i.fmt.headD 0) then
    let r := skipAtoi 0 i.fmt
    some (r.1, flags, { i with fmt := r.2 })
  else if i.fmt.headD 0 = 42 then
    match i.args with
    | .word w :: args =>
      if w.toInt < 0 then some (-w.toInt, { flags with left := true }, ⟨i.fmt.tail, args⟩)
      else some (w.toInt, flags, ⟨i.fmt.tail, args⟩)
    | _ => none
  else some (-1, flags, i)

/-- `precision` -/
def readPrecision (i : Input) : Option (ℤ × Input) :=
  if i.fmt.headD 0 = 46 then
    let fmt := i.fmt.tail
    if isdigit (fmt.headD 0) then
      let r := skipAtoi 0 fmt
      some (max r.1 0, { i with fmt := r.2 })
    else if fmt.headD 0 = 42 then
      match i.args with
      | .word w :: args => some (max w.toInt 0, ⟨fmt.tail, args⟩)
      | _ => none
    else some (0, { i with fmt })
  else some (-1, i)

/-- `qualifier`, and the format behind it. -/
def readQualifier (fmt : Bytes) : Option UInt8 × Bytes :=
  let c := fmt.headD 0
  if c = 104 ∨ c = 108 ∨ c = 76 ∨ c = 90 ∨ c = 122 then
    if c = 108 ∧ fmt.tail.headD 0 = 108 then (some 76, fmt.tail.tail) else (some c, fmt.tail)
  else (none, fmt)

/-- `num`, as `qualifier` and `SIGN` have it. -/
def readNum (qualifier : Option UInt8) (sign : Bool) (args : List VaArg) :
    Option (BitVec 64 × List VaArg) :=
  match qualifier, args with
  | some 76, .longLong n :: args => some (n, args)
  | some 76, _ => none
  | some 90, .word w :: args | some 122, .word w :: args => some (w.setWidth 64, args)
  | some 104, .word w :: args =>
    let num := w.setWidth 16
    some (if sign then num.signExtend 64 else num.setWidth 64, args)
  | _, .word w :: args => some (if sign then w.signExtend 64 else w.setWidth 64, args)
  | _, _ => none

/-- An integer in a base. -/
def printNum (base : ℕ) (width precision : ℤ) (qualifier : Option UInt8) (flags : Flags)
    (i : Input) : Option (Bytes × Input) :=
  (readNum qualifier flags.sign i.args).map fun r =>
    (number r.1 base width precision flags, { i with args := r.2 })

/-- `PAGE_SIZE` -/
def pageSize : ℕ := 4096

/-- The conversion for the character `c`, which stands in front of `i`. -/
def convert (c : UInt8) (width precision : ℤ) (qualifier : Option UInt8) (flags : Flags)
    (i : Input) : Option (Bytes × Input) :=
  if c = 99 then
    match i.args with
    | .word w :: args =>
      let blanks : Bytes := List.replicate (width - 1).toNat 32
      let c := UInt8.ofBitVec (w.setWidth 8)
      some (if flags.left then c :: blanks else blanks ++ [c], { i with args })
    | _ => none
  else if c = 115 then
    match i.args with
    | .pointer p s :: args =>
      let s := if p.toNat < pageSize then text "<NULL>" else str s
      let s := if precision < 0 then s else s.take precision.toNat
      let blanks : Bytes := List.replicate (width - s.length).toNat 32
      some (if flags.left then s ++ blanks else blanks ++ s, { i with args })
    | _ => none
  else if c = 112 then
    match i.args with
    | .pointer p _ :: args =>
      let flags' := if width = -1 then { flags with zeropad := true } else flags
      some (number (p.setWidth 64) 16 (if width = -1 then 8 else width) precision flags',
        { i with args })
    | _ => none
  else if c = 110 then
    match i.args with
    | .pointer _ _ :: args => some ([], { i with args })
    | _ => none
  else if c = 37 then some ([37], i)
  else if c = 111 then printNum 8 width precision qualifier flags i
  else if c = 88 then printNum 16 width precision qualifier { flags with large := true } i
  else if c = 120 then printNum 16 width precision qualifier flags i
  else if c = 100 ∨ c = 105 then
    printNum 10 width precision qualifier { flags with sign := true } i
  else if c = 117 then printNum 10 width precision qualifier flags i
  else some (if c = 0 then [37] else [37, c], i)

/-- What a `%` and the characters behind it print. -/
def directive (i : Input) : Option (Bytes × Input) :=
  let f := readFlags .zero i.fmt
  (readWidth f.1 { i with fmt := f.2 }).bind fun w =>
    (readPrecision w.2.2).bind fun p =>
      let q := readQualifier p.2.fmt
      convert (q.2.headD 0) w.1 p.1 q.1 w.2.1 { p.2 with fmt := q.2.tail }

/-- The loop of `vsnprintf`: all that it prints, if it ends within some number of rounds and the
arguments are as the format says. -/
def formatLoop : ℕ → Input → Option Bytes
  | 0, _ => none
  | rounds + 1, i =>
    match i.fmt with
    | [] => some []
    | c :: fmt =>
      if c ≠ 37 then (formatLoop rounds { i with fmt }).map (c :: ·)
      else
        (directive { i with fmt }).bind fun r => (formatLoop rounds r.2).map (r.1 ++ ·)

/-- `vsnprintf`: the bytes that it writes to `buf`. -/
def vsnprintf (size : ULONG) (fmt : Bytes) (args : List VaArg) : Option Bytes :=
  if size.toInt < 0 then some []
  else
    (formatLoop (strlen fmt + 1) ⟨str fmt, args⟩).map fun out =>
      if size = 0 then [] else out.take (size.toNat - 1) ++ [0]

/-- `sprintf`, with `(~0U)>>1` for the size of `buf`. -/
def sprintf (fmt : Bytes) (args : List VaArg) : Option Bytes :=
  vsnprintf (~~~(0 : ULONG) >>> 1) fmt args

/-! ### Integers -/

/-- The flags for `%d`. -/
def Flags.signed : Flags := { Flags.zero with sign := true }

theorem getD_smallDigits {d : ℕ} (h : d < 10) : smallDigits.getD d 0 = digit d := by
  have hall : ∀ d < 10, smallDigits.getD d 0 = digit d := by decide
  exact hall d h

theorem numberLoop_eq_numberTmp (k num : ℕ) :
    numberLoop smallDigits 10 k num = numberTmp k num := by
  induction k generalizing num with
  | zero => rfl
  | succ k ih => rw [numberLoop, numberTmp, ih, getD_smallDigits (Nat.mod_lt _ (by omega))]

/-- The digits in `tmp`, the first one first. -/
theorem reverse_numberLoop (num : BitVec 64) :
    (if num = 0 then [48] else numberLoop smallDigits 10 num.toNat num.toNat).reverse =
      decimal num.toNat := by
  by_cases h : num = 0
  · rw [if_pos h, h]
    rfl
  · have hpos : 0 < num.toNat := Nat.pos_of_ne_zero fun h0 => h (BitVec.eq_of_toNat_eq h0)
    rw [if_neg h, numberLoop_eq_numberTmp, reverse_numberTmp hpos le_rfl]

/-- Without a width, a precision and other flags there is a sign and there are digits. -/
theorem number_signed (num : BitVec 64) :
    number num 10 (-1) (-1) .signed =
      if num.toInt < 0 then 45 :: decimal (-num).toNat else decimal num.toNat := by
  have hlen (l : Bytes) : max (-1) (l.length : ℤ) = l.length := by omega
  have hsize (m n : ℕ) : (-1 - (m : ℤ) - n).toNat = 0 := by omega
  have hrest (z : ℤ) : (min z 0 - 1).toNat = 0 := by omega
  have hflag : Flags.signed = ⟨false, true, false, false, false, false, false⟩ := rfl
  unfold number
  simp only [hflag, Bool.false_eq_true, ↓reduceIte, or_self, and_false, true_and, hlen, hsize,
    hrest, Int.sub_self, Int.toNat_zero, List.replicate_zero, List.nil_append, List.append_nil,
    reverse_numberLoop]
  split_ifs <;> rfl

/-- `%d` prints the decimal text. -/
theorem number_sign (num : BitVec 64) : number num 10 (-1) (-1) .signed = decimalInt num.toInt := by
  have hlt := num.isLt
  have hint := num.toInt_eq_toNat_cond
  rw [number_signed]
  by_cases hneg : num.toInt < 0
  · obtain ⟨n, hn⟩ := Int.eq_negSucc_of_lt_zero hneg
    have hnat : (-num).toNat = n + 1 := by
      rw [BitVec.toNat_neg]
      split_ifs at hint <;> omega
    rw [if_pos hneg, hnat, hn, decimalInt]
  · have hnat : num.toInt = Int.ofNat num.toNat := by
      split_ifs at hint
      · exact hint
      · omega
    rw [if_neg hneg, hnat, decimalInt]

theorem directive_d (fmt : Bytes) (d : ULONG) (args : List VaArg) :
    directive ⟨100 :: fmt, .word d :: args⟩ = some (decimalInt d.toInt, ⟨fmt, args⟩) := by
  have hint : (d.signExtend 64).toInt = d.toInt := BitVec.toInt_signExtend_of_le (by omega)
  rw [← hint, ← number_sign]
  rfl

/-! ### Formats with `%d` -/

/-- Every `%` has a `d` behind it. -/
def OnlyD : Bytes → Prop
  | [] => True
  | [c] => c ≠ 37
  | c :: c' :: fmt => if c = 37 then c' = 100 ∧ OnlyD fmt else OnlyD (c' :: fmt)

theorem OnlyD.of_cons {c : UInt8} {fmt : Bytes} (h : OnlyD (c :: fmt)) (hc : c ≠ 37) :
    OnlyD fmt := by
  cases fmt with
  | nil => trivial
  | cons c' fmt => exact (if_neg hc).mp h

theorem OnlyD.of_percent {fmt : Bytes} (h : OnlyD (37 :: fmt)) :
    ∃ fmt', fmt = 100 :: fmt' ∧ OnlyD fmt' := by
  cases fmt with
  | nil => exact absurd rfl h
  | cons c' fmt =>
    obtain ⟨rfl, hfmt⟩ := (if_pos rfl).mp h
    exact ⟨fmt, rfl, hfmt⟩

/-- The loop replaces each `%d` by the text of its argument. -/
theorem formatLoop_onlyD (d : ULONG) {rounds : ℕ} {fmt : Bytes} (h : OnlyD fmt)
    (hrounds : fmt.length < rounds) {n : ℕ} (hn : fmt.count 37 ≤ n) :
    formatLoop rounds ⟨fmt, List.replicate n (.word d)⟩ =
      some (expandD (decimalInt d.toInt) fmt) := by
  induction rounds generalizing fmt n with
  | zero => omega
  | succ rounds ih =>
    cases fmt with
    | nil => rfl
    | cons c fmt =>
      rw [List.length_cons] at hrounds
      by_cases hc : c = 37
      · subst hc
        obtain ⟨fmt, rfl, hfmt⟩ := h.of_percent
        rw [List.count_cons_self, List.count_cons_of_ne (by decide)] at hn
        rw [List.length_cons] at hrounds
        obtain ⟨n, rfl⟩ : ∃ m, n = m + 1 := ⟨n - 1, by omega⟩
        rw [formatLoop, List.replicate_succ]
        simp only [ne_eq, not_true_eq_false, ↓reduceIte, directive_d, Option.bind_some]
        rw [ih hfmt (by omega) (by omega)]
        rfl
      · rw [List.count_cons_of_ne hc] at hn
        rw [formatLoop]
        simp only [ne_eq, hc, not_false_eq_true, ↓reduceIte]
        rw [ih (h.of_cons hc) (by omega) hn, expandD_cons_of_not fun hcd => hc hcd.1]
        rfl

/-- **What the driver's `sprintf` prints** for a format without other conversions. -/
theorem sprintf_onlyD (d : ULONG) {fmt : Bytes} (h : OnlyD (str fmt)) {n : ℕ}
    (hn : (str fmt).count 37 ≤ n) :
    sprintf fmt (List.replicate n (.word d)) =
      some ((expandD (decimalInt d.toInt) (str fmt)).take (2 ^ 31 - 2) ++ [0]) := by
  have hloop : formatLoop (strlen fmt + 1) ⟨str fmt, List.replicate n (.word d)⟩ =
      some (expandD (decimalInt d.toInt) (str fmt)) :=
    formatLoop_onlyD d h (Nat.lt_succ_self _) hn
  rw [sprintf, vsnprintf, hloop]
  rfl

end Vsprintf

end LxApi32
