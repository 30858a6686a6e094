import LxApi32.Daemon.Packet
import LxApi32.Lxafs.Path
import Mathlib.Data.List.DropRight

/-!
# Names in the dentry cache

File names of lxafs are compared without regard to case and to the dots and blanks at their end.
The dentry cache looks a name up by its hash first, so two names that compare equal must have the
same hash.  `lxafs_d_compare` trims both names with `lxafs_adjust_length`; `lxafs_d_hash` does so
too, except for a name of two characters that has a dot in the first *or* the second place.

* `lxafsDCompare_eq_zero_iff` : two names compare equal exactly if their trimmed names in upper case
  are the same, so that the comparison is an equivalence relation.
* `dCompare_dHash` : equal names have the same hash, except a name of two characters that ends in
  a dot and a name that is not.
* `dHash_ne_dotted` : the names `a.` and `a`.
* `chkName_grammar` : which names `lxafs_chk_name` accepts, and that it accepts what it has trimmed.
-/

namespace LxApi32

/-- `struct qstr`: the name is in the first `len` bytes of the buffer. -/
structure Qstr where
  /-- The buffer. -/
  name : Bytes
  /-- The length of the name. -/
  len : ℕ
  /-- The name is in the buffer. -/
  len_le : len ≤ name.length
  deriving DecidableEq, Repr

/-- The character `.`. -/
def dot : UInt8 := 46

/-- The blank. -/
def blank : UInt8 := 32

/-- `not_allowed_char` -/
def notAllowedChar (c : UInt8) : Bool :=
  c < blank || c == 34 || c == 42 || c == slash || c == 58 || c == 60 || c == 62 || c == 63 ||
    c == 92 || c == 124

/-- `lxafs_upcase` -/
def lxafsUpcase (a : UInt8) : UInt8 := if 97 ≤ a ∧ a ≤ 122 then a - 97 + 65 else a

/-- The loop of `lxafs_adjust_length`. -/
def trimEnd (name : Bytes) : ℕ → ℕ
  | 0 => 0
  | n + 1 => if name.getD n 0 = dot ∨ name.getD n 0 = blank then trimEnd name n else n + 1

/-- `lxafs_adjust_length`: the new length. -/
def lxafsAdjustLength (name : Bytes) (len : ℕ) : ℕ :=
  if len = 0 then len
  else if len = 1 ∧ name.getD 0 0 = dot then len
  else if len = 2 ∧ name.getD 0 0 = dot ∧ name.getD 1 0 = dot then len
  else trimEnd name len

/-- `-ENAMETOOLONG` -/
def negENAMETOOLONG : ℤ := -36

/-- `-EINVAL` -/
def negEINVAL : ℤ := -22

/-- `lxafs_chk_name`: the result and the new length. -/
def lxafsChkName (name : Bytes) (len : ℕ) : ℤ × ℕ :=
  if 254 < len then (negENAMETOOLONG, len)
  else
    let len := lxafsAdjustLength name len
    if len = 0 then (negEINVAL, len)
    else if (name.take len).any notAllowedChar then (negEINVAL, len)
    else if len = 1 ∧ name.getD 0 0 = dot then (negEINVAL, len)
    else if len = 2 ∧ name.getD 0 0 = dot ∧ name.getD 1 0 = dot then (negEINVAL, len)
    else (0, len)

/-- The loop of `lxafs_compare_names`. -/
def compareLoop : Bytes → Bytes → ℤ
  | c1 :: n1, c2 :: n2 =>
    if lxafsUpcase c1 < lxafsUpcase c2 then -1
    else if lxafsUpcase c2 < lxafsUpcase c1 then 1
    else compareLoop n1 n2
  | _, _ => 0

/-- `lxafs_compare_names` -/
def lxafsCompareNames (n1 : Bytes) (l1 : ℕ) (n2 : Bytes) (l2 : ℕ) (last : ℤ) : ℤ :=
  let l := min l1 l2
  if last ≠ 0 then -1
  else
    let r := compareLoop (n1.take l) (n2.take l)
    if r ≠ 0 then r
    else if l1 < l2 then -1
    else if l2 < l1 then 1
    else 0

/-- `partial_name_hash` -/
def partialNameHash (c prevhash : ULONG) : ULONG := (prevhash + (c <<< 4) + (c >>> 4)) * 11

/-- The loop of `lxafs_d_hash`, from `init_name_hash()` on. -/
def hashLoop (name : Bytes) : ULONG :=
  name.foldl (fun hash c => partialNameHash (BitVec.ofNat 32 (lxafsUpcase c).toNat) hash) 0

/-- `lxafs_d_hash`; `end_name_hash` changes nothing, for an `int` has 32 bits too. -/
def lxafsDHash (q : Qstr) : ULONG :=
  let l :=
    if q.len = 1 ∧ q.name.getD 0 0 = dot then q.len
    else if q.len = 2 ∧ (q.name.getD 0 0 = dot ∨ q.name.getD 1 0 = dot) then q.len
    else lxafsAdjustLength q.name q.len
  hashLoop (q.name.take l)

/-- `lxafs_d_compare` -/
def lxafsDCompare (a b : Qstr) : ℤ :=
  let al := lxafsAdjustLength a.name a.len
  let (err, bl) := lxafsChkName b.name b.len
  if err ≠ 0 then 1
  else if lxafsCompareNames a.name al b.name bl 0 ≠ 0 then 1
  else 0

namespace Qstr

/-- `lxafs_chk_name` accepts the name. -/
def Accepted (q : Qstr) : Prop := (lxafsChkName q.name q.len).1 = 0

instance : DecidablePred Accepted :=
  fun q => inferInstanceAs (Decidable ((lxafsChkName q.name q.len).1 = 0))

/-- What makes two names the same: the name without the dots and blanks at its end, in upper
case. -/
def key (q : Qstr) : Bytes := (q.name.take (trimEnd q.name q.len)).map lxafsUpcase

/-- A name of two characters that ends in a dot. -/
def ShortDotted (q : Qstr) : Prop := q.len = 2 ∧ q.name.getD 1 0 = dot

instance : DecidablePred ShortDotted :=
  fun q => inferInstanceAs (Decidable (q.len = 2 ∧ q.name.getD 1 0 = dot))

end Qstr

/-! ### Trimming -/

theorem trimEnd_le (name : Bytes) (n : ℕ) : trimEnd name n ≤ n := by
  induction n with
  | zero => exact le_rfl
  | succ n ih =>
    rw [trimEnd]
    split_ifs
    · exact Nat.le_succ_of_le ih
    · exact le_rfl

theorem trimEnd_of_last {name : Bytes} {n : ℕ} (h : name.getD n 0 = dot ∨ name.getD n 0 = blank) :
    trimEnd name (n + 1) = trimEnd name n :=
  if_pos h

theorem trimEnd_of_not_last {name : Bytes} {n : ℕ}
    (h : ¬ (name.getD n 0 = dot ∨ name.getD n 0 = blank)) : trimEnd name (n + 1) = n + 1 :=
  if_neg h

/-- The names `.` and `..` are trimmed to nothing; all others are trimmed by the loop. -/
theorem lxafsAdjustLength_eq {name : Bytes} {len : ℕ}
    (h1 : ¬ (len = 1 ∧ name.getD 0 0 = dot))
    (h2 : ¬ (len = 2 ∧ name.getD 0 0 = dot ∧ name.getD 1 0 = dot)) :
    lxafsAdjustLength name len = trimEnd name len := by
  rw [lxafsAdjustLength, if_neg h1, if_neg h2]
  split_ifs with h0
  · rw [h0, trimEnd]
  · rfl

namespace Qstr

variable {a b c : Qstr}

/-- What `lxafs_chk_name` has found about a name that it accepts. -/
theorem Accepted.trim (h : a.Accepted) :
    lxafsChkName a.name a.len = (0, trimEnd a.name a.len) ∧
      lxafsAdjustLength a.name a.len = trimEnd a.name a.len ∧ trimEnd a.name a.len ≠ 0 := by
  have hchk := h
  unfold Accepted lxafsChkName at hchk
  simp only at hchk
  split_ifs at hchk with h254 h0 hchar h1 h2
  · cases hchk
  · cases hchk
  · cases hchk
  · cases hchk
  · cases hchk
  · have hlen : lxafsAdjustLength a.name a.len = trimEnd a.name a.len := by
      apply lxafsAdjustLength_eq
      · rintro ⟨hl, hdot⟩
        refine h1 ⟨?_, hdot⟩
        rw [hl, lxafsAdjustLength, if_neg Nat.one_ne_zero, if_pos ⟨rfl, hdot⟩]
      · rintro ⟨hl, hdot⟩
        refine h2 ⟨?_, hdot⟩
        rw [hl, lxafsAdjustLength, if_neg (by omega), if_neg (by omega), if_pos ⟨rfl, hdot⟩]
    rw [hlen] at h0 hchar h1 h2
    refine ⟨?_, hlen, h0⟩
    rw [lxafsChkName, if_neg h254, hlen]
    simp only [if_neg h0, if_neg hchar, if_neg h1, if_neg h2]

theorem take_length (q : Qstr) {n : ℕ} (h : n ≤ q.len) : (q.name.take n).length = n :=
  List.length_take_of_le (h.trans q.len_le)

end Qstr

/-! ### The grammar of the names -/

/-- The characters from the blank on that a name must not have. -/
def forbidden : List UInt8 := [34, 42, slash, 58, 60, 62, 63, 92, 124]

/-- The name without all dots and blanks at its end. -/
def Qstr.trimmed (q : Qstr) : Bytes :=
  (q.name.take q.len).rdropWhile fun c => c = dot ∨ c = blank

theorem notAllowedChar_eq_false (c : UInt8) :
    notAllowedChar c = false ↔ blank ≤ c ∧ c ∉ forbidden := by
  simp only [notAllowedChar, forbidden, Bool.or_eq_false_iff, decide_eq_false_iff_not,
    UInt8.not_lt, beq_eq_false_iff_ne, List.mem_cons, List.not_mem_nil, or_false, not_or, ne_eq,
    and_assoc]

/-- The loop leaves the name without the dots and blanks at its end. -/
theorem take_trimEnd {name : Bytes} {n : ℕ} (h : n ≤ name.length) :
    name.take (trimEnd name n) = (name.take n).rdropWhile fun c => c = dot ∨ c = blank := by
  induction n with
  | zero => rfl
  | succ n ih =>
    have hget : name.getD n 0 = name[n] := by
      rw [List.getD_eq_getElem?_getD, List.getElem?_eq_getElem h, Option.getD_some]
    have htake : name.take (n + 1) = name.take n ++ [name[n]] :=
      (List.take_append_getElem h).symm
    rw [trimEnd, hget, htake, List.rdropWhile_concat, ← ih (Nat.le_of_succ_le h), ← htake]
    simp only [decide_eq_true_eq]
    split_ifs <;> rfl

/-- The last character that is left is no dot. -/
theorem getD_trimEnd_ne_dot {name : Bytes} {m n : ℕ} (h : trimEnd name m = n + 1) :
    name.getD n 0 ≠ dot := by
  induction m with
  | zero => cases h
  | succ m ih =>
    rw [trimEnd] at h
    split_ifs at h with hlast
    · exact ih h
    · cases h
      exact fun hdot => hlast (.inl hdot)

namespace Qstr

variable {q : Qstr}

theorem take_trimEnd_len (q : Qstr) : q.name.take (trimEnd q.name q.len) = q.trimmed :=
  take_trimEnd q.len_le

theorem trimmed_length (q : Qstr) : q.trimmed.length = trimEnd q.name q.len := by
  rw [← q.take_trimEnd_len, List.length_take_of_le ((trimEnd_le ..).trans q.len_le)]

/-- The names that keep their dots in `lxafs_adjust_length` are nothing else. -/
theorem trimmed_of_dots (h : q.len = 1 ∧ q.name.getD 0 0 = dot ∨
    q.len = 2 ∧ q.name.getD 0 0 = dot ∧ q.name.getD 1 0 = dot) : q.trimmed = [] := by
  rw [← List.length_eq_zero_iff, q.trimmed_length]
  rcases h with ⟨hlen, h0⟩ | ⟨hlen, h0, h1⟩
  · rw [hlen, trimEnd_of_last (.inl h0), trimEnd]
  · rw [hlen, trimEnd_of_last (.inl h1), trimEnd_of_last (.inl h0), trimEnd]

/-- What `lxafs_chk_name` returns. -/
theorem chkName_eq (q : Qstr) : lxafsChkName q.name q.len =
    if 254 < q.len then (negENAMETOOLONG, q.len)
    else if q.trimmed = [] ∨ q.trimmed.any notAllowedChar = true then
      (negEINVAL, lxafsAdjustLength q.name q.len)
    else (0, q.trimmed.length) := by
  unfold lxafsChkName
  split_ifs with hlong hbad
  · rfl
  · by_cases hdots : q.len = 1 ∧ q.name.getD 0 0 = dot ∨
        q.len = 2 ∧ q.name.getD 0 0 = dot ∧ q.name.getD 1 0 = dot
    · -- `.` and `..` are rejected in the end
      have hlen : lxafsAdjustLength q.name q.len = q.len := by
        unfold lxafsAdjustLength
        rcases hdots with h | h <;> split_ifs <;> rfl
      rw [hlen]
      dsimp only
      split_ifs <;> first | rfl | tauto
    · obtain ⟨h1, h2⟩ := not_or.1 hdots
      rw [lxafsAdjustLength_eq h1 h2]
      dsimp only
      rw [q.take_trimEnd_len, ← q.trimmed_length]
      split_ifs with h0 hany <;>
        first | rfl | exact absurd hbad (not_or.2 ⟨mt List.length_eq_zero_iff.2 h0, hany⟩)
  · have hne : q.trimmed ≠ [] := fun h => hbad (.inl h)
    have hany : ¬ q.trimmed.any notAllowedChar = true := fun h => hbad (.inr h)
    have hdots := mt trimmed_of_dots hne
    obtain ⟨h1, h2⟩ := not_or.1 hdots
    have hlast : ∀ n, trimEnd q.name q.len = n + 1 → q.name.getD n 0 ≠ dot := fun n =>
      getD_trimEnd_ne_dot
    rw [ne_eq, ← List.length_eq_zero_iff, q.trimmed_length] at hne
    rw [lxafsAdjustLength_eq h1 h2]
    dsimp only
    rw [q.take_trimEnd_len, if_neg hne, if_neg hany, if_neg fun h => hlast 0 h.1 h.2,
      if_neg fun h => hlast 1 h.1 h.2.2, q.trimmed_length]

/-- **`lxafs_chk_name` accepts its grammar**, and accepts what it has trimmed. -/
theorem chkName_grammar (q : Qstr) :
    ((lxafsChkName q.name q.len).1 = 0 ↔
      q.len ≤ 254 ∧ q.trimmed ≠ [] ∧ ∀ c ∈ q.trimmed, blank ≤ c ∧ c ∉ forbidden) ∧
    ((lxafsChkName q.name q.len).1 = 0 →
      (lxafsChkName q.name q.len).2 = q.trimmed.length ∧
      ∀ q' : Qstr, q'.name.take q'.len = q.trimmed →
        lxafsChkName q'.name q'.len = (0, q'.len)) := by
  have hany : q.trimmed.any notAllowedChar = true ↔
      ¬ ∀ c ∈ q.trimmed, blank ≤ c ∧ c ∉ forbidden := by
    rw [← not_iff_not, not_not, Bool.not_eq_true, List.any_eq_false]
    simp only [Bool.not_eq_true, notAllowedChar_eq_false]
  have hgrammar : (lxafsChkName q.name q.len).1 = 0 ↔
      q.len ≤ 254 ∧ q.trimmed ≠ [] ∧ ∀ c ∈ q.trimmed, blank ≤ c ∧ c ∉ forbidden := by
    rw [q.chkName_eq]
    split_ifs with hlong hbad
    · exact iff_of_false (show negENAMETOOLONG ≠ 0 by decide) (by omega)
    · exact iff_of_false (show negEINVAL ≠ 0 by decide) fun h =>
        hbad.elim h.2.1 fun hn => hany.1 hn h.2.2
    · rw [not_or, hany, not_not] at hbad
      exact iff_of_true rfl ⟨by omega, hbad⟩
  refine ⟨hgrammar, fun hok => ?_⟩
  obtain ⟨hlen, hne, hchars⟩ := hgrammar.1 hok
  have hbad : ¬ (q.trimmed = [] ∨ q.trimmed.any notAllowedChar = true) :=
    not_or.2 ⟨hne, fun h => hany.1 h hchars⟩
  constructor
  · rw [q.chkName_eq, if_neg (by omega), if_neg hbad]
  · intro q' hq'
    -- what is left has nothing to trim
    have htrim : q'.trimmed = q.trimmed := by
      rw [trimmed, hq', trimmed, List.rdropWhile_idempotent]
    have hlen' : q'.len = q.trimmed.length := by
      rw [← hq', List.length_take_of_le q'.len_le]
    have hle := trimEnd_le q.name q.len
    rw [← q.trimmed_length, ← hlen'] at hle
    rw [q'.chkName_eq, htrim, if_neg (by omega), if_neg hbad, hlen']

end Qstr

/-! ### The comparison -/

theorem compareLoop_eq_zero_iff {n1 n2 : Bytes} (h : n1.length = n2.length) :
    compareLoop n1 n2 = 0 ↔ n1.map lxafsUpcase = n2.map lxafsUpcase := by
  induction n1 generalizing n2 with
  | nil => simp [List.length_eq_zero_iff.1 h.symm, compareLoop]
  | cons c1 n1 ih =>
    cases n2 with
    | nil => cases h
    | cons c2 n2 =>
      rw [compareLoop, List.map_cons, List.map_cons, List.cons.injEq]
      split_ifs with hlt hgt
      · simp [UInt8.ne_of_lt hlt]
      · simp [(UInt8.ne_of_lt hgt).symm]
      · have heq : lxafsUpcase c1 = lxafsUpcase c2 :=
          UInt8.le_antisymm (UInt8.not_lt.1 hgt) (UInt8.not_lt.1 hlt)
        rw [ih (Nat.succ.inj h), and_iff_right heq]

theorem lxafsCompareNames_eq_zero_iff {n1 n2 : Bytes} {l1 l2 : ℕ} (h1 : l1 ≤ n1.length)
    (h2 : l2 ≤ n2.length) :
    lxafsCompareNames n1 l1 n2 l2 0 = 0 ↔
      (n1.take l1).map lxafsUpcase = (n2.take l2).map lxafsUpcase := by
  have hlen : (n1.take l1).map lxafsUpcase = (n2.take l2).map lxafsUpcase → l1 = l2 := by
    intro h
    have := congrArg List.length h
    rwa [List.length_map, List.length_map, List.length_take_of_le h1,
      List.length_take_of_le h2] at this
  rw [lxafsCompareNames]
  simp only [ne_eq, not_true_eq_false, ↓reduceIte]
  by_cases heq : l1 = l2
  · subst heq
    have hloop : compareLoop (n1.take l1) (n2.take l1) = 0 ↔
        (n1.take l1).map lxafsUpcase = (n2.take l1).map lxafsUpcase :=
      compareLoop_eq_zero_iff (by rw [List.length_take_of_le h1, List.length_take_of_le h2])
    rw [Nat.min_self, ← hloop]
    simp
  · refine iff_of_false ?_ (mt hlen heq)
    split_ifs with hr hlt hgt
    · decide
    · decide
    · omega
    · exact hr

section Compare

variable {a b c : Qstr}

/-- Two names compare equal exactly if they are the same up to case and the dots and blanks at
their end. -/
theorem lxafsDCompare_eq_zero_iff (ha : a.Accepted) (hb : b.Accepted) :
    lxafsDCompare a b = 0 ↔ a.key = b.key := by
  have hnames := lxafsCompareNames_eq_zero_iff
    ((trimEnd_le a.name a.len).trans a.len_le) ((trimEnd_le b.name b.len).trans b.len_le)
  rw [lxafsDCompare, ha.trim.2.1, hb.trim.1]
  simp only [ne_eq, not_true_eq_false, ↓reduceIte]
  rw [Qstr.key, Qstr.key, ← hnames]
  split_ifs with h
  · exact iff_of_true rfl h
  · exact iff_of_false Int.one_ne_zero h

/-! ### The hash -/

theorem hashLoop_eq_foldl_map (name : Bytes) :
    hashLoop name = (name.map lxafsUpcase).foldl
      (fun hash c => partialNameHash (BitVec.ofNat 32 c.toNat) hash) 0 := by
  rw [hashLoop, List.foldl_map]

/-- The hash of a name that does not have two characters with a dot at the end is that of the
trimmed name. -/
theorem lxafsDHash_of_not_shortDotted (ha : a.Accepted) (hs : ¬ a.ShortDotted) :
    lxafsDHash a = hashLoop (a.name.take (trimEnd a.name a.len)) := by
  rw [lxafsDHash, ha.trim.2.1]
  congr 2
  split_ifs with h1 h2
  · -- `.` is not accepted
    exact absurd (by rw [h1.1, trimEnd_of_last (.inl h1.2), trimEnd]) ha.trim.2.2
  · -- a dot in the first place only: nothing to trim
    obtain ⟨hlen, hdot⟩ := h2
    have hsnd : a.name.getD 1 0 ≠ dot := fun h => hs ⟨hlen, h⟩
    have hfst := hdot.resolve_right hsnd
    by_cases hblank : a.name.getD 1 0 = blank
    · refine absurd ?_ ha.trim.2.2
      rw [hlen, trimEnd_of_last (.inr hblank), trimEnd_of_last (.inl hfst), trimEnd]
    · rw [hlen, trimEnd_of_not_last (not_or.2 ⟨hsnd, hblank⟩)]
  · rfl

/-- A name `c.` is trimmed to `c`, and its hash is that of both characters. -/
theorem Qstr.ShortDotted.trim (hs : a.ShortDotted) (ha : a.Accepted) :
    trimEnd a.name a.len = 1 ∧ lxafsDHash a = hashLoop (a.name.take 2) := by
  obtain ⟨hlen, hdot⟩ := hs
  have hne := ha.trim.2.2
  constructor
  · have hle := trimEnd_le a.name 1
    rw [hlen, trimEnd_of_last (.inl hdot)] at hne ⊢
    omega
  · rw [lxafsDHash, hlen, if_neg (by omega), if_pos ⟨rfl, .inr hdot⟩]

/-- The two characters of such a name. -/
theorem Qstr.ShortDotted.take_two (hs : a.ShortDotted) :
    a.name.take 1 = [a.name.getD 0 0] ∧ a.name.take 2 = [a.name.getD 0 0, dot] := by
  obtain ⟨hlen, hdot⟩ := hs
  have hle := a.len_le
  rw [hlen] at hle
  obtain ⟨c0, c1, r, hname⟩ : ∃ c0 c1 r, a.name = c0 :: c1 :: r := by
    match hn : a.name with
    | [] => simp [hn] at hle
    | [c] => simp [hn] at hle
    | c0 :: c1 :: r => exact ⟨c0, c1, r, rfl⟩
  rw [hname] at hdot ⊢
  simp_all

/-- The hash of a name depends on its characters in upper case. -/
theorem hashLoop_congr {n1 n2 : Bytes} (h : n1.map lxafsUpcase = n2.map lxafsUpcase) :
    hashLoop n1 = hashLoop n2 := by
  rw [hashLoop_eq_foldl_map, hashLoop_eq_foldl_map, h]

/-- A dot behind a character changes the hash. -/
theorem hashLoop_dot_ne (c : UInt8) : hashLoop [c, dot] ≠ hashLoop [c] := by
  have hall : ∀ n : Fin 256, hashLoop [UInt8.ofNat n, dot] ≠ hashLoop [UInt8.ofNat n] := by
    decide +kernel
  have := hall ⟨c.toNat, c.toNat_lt⟩
  rwa [UInt8.ofNat_toNat] at this

/-- The trimmed name of `c.` in upper case. -/
theorem Qstr.ShortDotted.key_eq (hs : a.ShortDotted) (ha : a.Accepted) :
    a.key = [lxafsUpcase (a.name.getD 0 0)] := by
  rw [Qstr.key, (hs.trim ha).1, hs.take_two.1, List.map_singleton]

/-- Two names `c.` that are the same have the same hash. -/
theorem Qstr.ShortDotted.hash_congr (hs : a.ShortDotted) (ha : a.Accepted) (hb : b.Accepted)
    (hbs : b.ShortDotted) (hkey : a.key = b.key) : lxafsDHash a = lxafsDHash b := by
  rw [hs.key_eq ha, hbs.key_eq hb, List.cons.injEq, and_iff_left rfl] at hkey
  rw [(hs.trim ha).2, (hbs.trim hb).2, hs.take_two.2, hbs.take_two.2]
  apply hashLoop_congr
  rw [List.map_cons, hkey]
  rfl

/-- A name `c.` and a name that is not, but is the same, have different hashes. -/
theorem Qstr.ShortDotted.hash_ne (hs : a.ShortDotted) (ha : a.Accepted) (hb : b.Accepted)
    (hbs : ¬ b.ShortDotted) (hkey : a.key = b.key) : lxafsDHash a ≠ lxafsDHash b := by
  have hhash : lxafsDHash b = hashLoop [a.name.getD 0 0] := by
    rw [lxafsDHash_of_not_shortDotted hb hbs]
    apply hashLoop_congr
    exact hkey.symm.trans (hs.key_eq ha)
  rw [hhash, (hs.trim ha).2, hs.take_two.2]
  exact hashLoop_dot_ne _

/-- **Equal names have the same hash**, unless only one of them is a name of two characters that
ends in a dot, and the comparison is an equivalence relation on the accepted names. -/
theorem dCompare_dHash (ha : a.Accepted) (hb : b.Accepted) (hc : c.Accepted) :
    ((lxafsDCompare a b = 0 → lxafsDHash a = lxafsDHash b) ↔
      (a.key = b.key → (a.ShortDotted ↔ b.ShortDotted))) ∧
    lxafsDCompare a a = 0 ∧
    (lxafsDCompare a b = 0 → lxafsDCompare b a = 0) ∧
    (lxafsDCompare a b = 0 → lxafsDCompare b c = 0 → lxafsDCompare a c = 0) := by
  refine ⟨?_, (lxafsDCompare_eq_zero_iff ha ha).2 rfl, ?_, ?_⟩
  · rw [lxafsDCompare_eq_zero_iff ha hb]
    apply imp_congr_right
    intro hkey
    by_cases has : a.ShortDotted
    · by_cases hbs : b.ShortDotted
      · simp only [has, hbs, iff_self, iff_true]
        exact has.hash_congr ha hb hbs hkey
      · simp only [has, hbs, iff_false]
        exact iff_of_false (has.hash_ne ha hb hbs hkey) (not_not.2 trivial)
    · by_cases hbs : b.ShortDotted
      · simp only [has, hbs, iff_true, iff_false]
        exact (hbs.hash_ne hb ha has hkey.symm).symm
      · simp only [has, hbs, iff_self, iff_true]
        rw [lxafsDHash_of_not_shortDotted ha has, lxafsDHash_of_not_shortDotted hb hbs]
        exact hashLoop_congr hkey
  · intro hab
    exact (lxafsDCompare_eq_zero_iff hb ha).2 ((lxafsDCompare_eq_zero_iff ha hb).1 hab).symm
  · intro hab hbc
    rw [lxafsDCompare_eq_zero_iff ha hb] at hab
    rw [lxafsDCompare_eq_zero_iff hb hc] at hbc
    exact (lxafsDCompare_eq_zero_iff ha hc).2 (hab.trans hbc)

end Compare

/-- The name `a`, with or without a dot behind it. -/
def sampleName (dotted : Bool) : Qstr := ⟨[97, dot, 0], if dotted then 2 else 1, by decide +revert⟩

/-- The names `a.` and `a` are accepted and compare equal, and their hashes differ. -/
theorem dHash_ne_dotted :
    (sampleName true).Accepted ∧ (sampleName false).Accepted ∧
      lxafsDCompare (sampleName true) (sampleName false) = 0 ∧
      lxafsDHash (sampleName true) ≠ lxafsDHash (sampleName false) := by
  decide

/-- `dCompare_dHash` for the names `a.` and `a`. -/
theorem dCompare_dHash_dotted :
    ¬ (lxafsDCompare (sampleName true) (sampleName false) = 0 →
      lxafsDHash (sampleName true) = lxafsDHash (sampleName false)) := by
  have h := dCompare_dHash (a := sampleName true) (b := sampleName false)
    (c := sampleName false) (by decide) (by decide) (by decide)
  rw [h.1]
  decide

end LxApi32
