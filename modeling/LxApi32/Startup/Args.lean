import LxApi32.Lib.CString
import LxApi32.Lib.Pieces
import LxApi32.Lxafs.Path
import Mathlib.Data.List.Induction

/-!
# The command line of the driver

`LX_parseArgs` goes through the words of the `DEVICE=` line in `CONFIG.SYS`: the first one is the
path of the driver, and the others are its parameters.

* `copyHome_append`, `copyWord_append` : the loops that copy a word.
* `parseLoop_eq` : the parameters that are passed on, as the words of a line.
* `lxParseArgs_iff` : when they are the words of the line.

A function has no result where it would write behind a buffer.
-/

namespace LxApi32

open CString

/-- `MAX_PARM_LENGTH` -/
def maxParmLength : ℕ := 256

/-- `parmList` : `/3`, `/VM`, `/V` and `/NOSTARTCHECK`. -/
def parmList : List Bytes :=
  [[0x2f, 0x33], [0x2f, 0x56, 0x4d], [0x2f, 0x56],
    [0x2f, 0x4e, 0x4f, 0x53, 0x54, 0x41, 0x52, 0x54, 0x43, 0x48, 0x45, 0x43, 0x4b]]

/-- The variables that the parameters set. -/
structure ParmFlags where
  /-- `lx_verbose_modulelist` -/
  lxVerboseModulelist : Bool
  /-- `lx_do_verbose` -/
  lxDoVerbose : Bool
  /-- `lx_do_last_startup_check` -/
  lxDoLastStartupCheck : Bool
  deriving DecidableEq, Repr

/-- What `LX_parseArgs` does with a word, of which the string had `left` bytes left. -/
inductive ParmEvent
  /-- `LX_parseArg(carg)` -/
  | parsed (left : ℕ) (carg : Bytes)
  /-- `Parameter to long` -/
  | tooLong (left : ℕ) (carg : Bytes)
  deriving DecidableEq, Repr

/-! ### The functions -/

/-- The loop of `LX_parseArg`. -/
def findParm (arg : Bytes) : Option ℕ := parmList.findIdx? fun p => strncmp arg p (strlen p) = 0

/-- `LX_parseArg`; the result is that the parameter is not known. -/
def lxParseArg (arg : Bytes) (f : ParmFlags) : Bool × ParmFlags :=
  match findParm arg with
  | some 0 => (false, f)
  | some 1 => (false, { f with lxVerboseModulelist := true, lxDoVerbose := true })
  | some 2 => (false, { f with lxDoVerbose := true })
  | some _ => (false, { f with lxDoLastStartupCheck := false })
  | none => (true, f)

/-- `b[i]=c` -/
def writeByte (b : Bytes) (i : ℕ) (c : UInt8) : Option Bytes :=
  if i < b.length then some (b.set i c) else none

/-- The loop that copies the first word, from `args` to `p` in `lx_drv_homepath`; `sl` is the place
of the last backslash. -/
def copyHome (home : Bytes) : ℕ → Option ℕ → Bytes → Option (Bytes × Option ℕ × Bytes)
  | _, sl, [] => some (home, sl, [])
  | p, sl, c :: args =>
    if c = 0x20 then some (home, sl, c :: args)
    else do
      let home ← writeByte home p c
      copyHome home (p + 1) (if c = 0x5c then some p else sl) args

/-- The loop that copies a word, from `args` to `carg[i]`. -/
def copyWord (carg : Bytes) : ℕ → Bytes → Option (Bytes × ℕ × Bytes)
  | i, [] => some (carg, i, [])
  | i, c :: args =>
    if c ≠ 0x20 ∧ i < maxParmLength - 1 then do
      let carg ← writeByte carg i c
      copyWord carg (i + 1) args
    else some (carg, i, c :: args)

/-- `while(*args && *args==' ') args++;` -/
def skipBlanks (args : Bytes) : Bytes := args.dropWhile (· == 0x20)

/-- The loop of `LX_parseArgs`, for `n` rounds at most. -/
def parseLoop : ℕ → Bytes → Bytes → ParmFlags → Option (List ParmEvent × ParmFlags)
  | 0, _, _, _ => none
  | n + 1, carg, args, f =>
    if args = [] then some ([], f)
    else do
      let start := skipBlanks args
      let (carg, i, args) ← copyWord carg 0 start
      if maxParmLength - 1 ≤ i then do
        let carg ← writeByte carg (maxParmLength - 1) 0
        let r ← parseLoop n carg args f
        some (.tooLong start.length (str carg) :: r.1, r.2)
      else do
        let carg ← writeByte carg i 0
        if strlen carg = 0 then parseLoop n carg args f
        else
          let (rc, f) := lxParseArg (str carg) f
          if rc then some ([.parsed start.length (str carg)], f)
          else do
            let r ← parseLoop n carg args f
            some (.parsed start.length (str carg) :: r.1, r.2)

/-- `LX_parseArgs`, with the memory that `kmalloc` returns, `lx_drv_homepath`, and the string that
`DevVirtToLin` finds. -/
def lxParseArgs (n : ℕ) (carg : Option Bytes) (home : Bytes) (args : Option Bytes) (f : ParmFlags) :
    Option (Bytes × List ParmEvent × ParmFlags) :=
  match carg, args with
  | some carg, some args => do
    let (home, sl, args) ← copyHome home 0 none (skipBlanks args)
    let home ← sl.elim (some home) fun sl => writeByte home (sl + 1) 0
    let r ← parseLoop n carg args f
    some (home, r)
  | _, _ => some (home, [], f)

/-! ### The words of a line -/

/-- What the words of a line ask for: a parameter that is passed on, or a report. -/
def parseWords : List (ℕ × Bytes) → ParmFlags → List ParmEvent × ParmFlags
  | [], f => ([], f)
  | (left, w) :: ws, f =>
    if w.length ≤ maxParmLength - 2 then
      if (lxParseArg w f).1 then ([.parsed left w], (lxParseArg w f).2)
      else
        let r := parseWords ws (lxParseArg w f).2
        (.parsed left w :: r.1, r.2)
    else
      let r := parseWords ws f
      (.tooLong left (w.take (maxParmLength - 1)) :: r.1, r.2)

/-- The words have `MAX_PARM_LENGTH-1` bytes at most, up to the first parameter that is not
known. -/
def WordsFit : List (ℕ × Bytes) → Prop
  | [] => True
  | (_, w) :: ws => w.length ≤ maxParmLength - 1 ∧
      (w.length ≤ maxParmLength - 2 ∧ findParm w = none ∨ WordsFit ws)

/-- Whether the words fit can be evaluated. -/
def decWordsFit : (ws : List (ℕ × Bytes)) → Decidable (WordsFit ws)
  | [] => .isTrue trivial
  | (_, w) :: ws =>
    letI := decWordsFit ws
    inferInstanceAs (Decidable (w.length ≤ maxParmLength - 1 ∧
      (w.length ≤ maxParmLength - 2 ∧ findParm w = none ∨ WordsFit ws)))

instance (ws : List (ℕ × Bytes)) : Decidable (WordsFit ws) := decWordsFit ws

/-- The length of the string where the word of an event begins. -/
def ParmEvent.left : ParmEvent → ℕ
  | .parsed left _ => left
  | .tooLong left _ => left

section

variable {n i : ℕ} {c : UInt8} {carg pre rest w tail args : Bytes} {f : ParmFlags}
  {ws : List (ℕ × Bytes)} {r : List ParmEvent × ParmFlags} {e : ParmEvent}

theorem lxParseArg_fst (w : Bytes) (f : ParmFlags) :
    (lxParseArg w f).1 = true ↔ findParm w = none := by
  unfold lxParseArg
  split <;> simp_all

/-- An event of the words belongs to one of them. -/
theorem left_of_mem_parseWords (h : e ∈ (parseWords ws f).1) : ∃ p ∈ ws, e.left = p.1 := by
  induction ws generalizing f with
  | nil => simp [parseWords] at h
  | cons p ws ih =>
    obtain ⟨left, w⟩ := p
    rw [parseWords] at h
    split_ifs at h
    · rw [List.mem_singleton] at h
      exact ⟨(left, w), List.mem_cons_self, by rw [h]; rfl⟩
    · rcases List.mem_cons.1 h with rfl | h
      · exact ⟨(left, w), List.mem_cons_self, rfl⟩
      · obtain ⟨p, hp, heq⟩ := ih h
        exact ⟨p, List.mem_cons_of_mem _ hp, heq⟩
    · rcases List.mem_cons.1 h with rfl | h
      · exact ⟨(left, w), List.mem_cons_self, rfl⟩
      · obtain ⟨p, hp, heq⟩ := ih h
        exact ⟨p, List.mem_cons_of_mem _ hp, heq⟩

/-! ### A round of the loop -/

/-- Bytes of a word are copied to `carg`, as long as there is room. -/
theorem copyWord_append (pre rest : Bytes) (hw : ∀ d ∈ w, d ≠ 0x20)
    (hpre : pre.length + w.length ≤ maxParmLength - 1) (hrest : w.length ≤ rest.length)
    (tail : Bytes) :
    copyWord (pre ++ rest) pre.length (w ++ tail) =
      copyWord (pre ++ w ++ rest.drop w.length) (pre ++ w).length tail := by
  induction w generalizing pre rest with
  | nil => simp
  | cons d w ih =>
    cases rest with
    | nil => simp at hrest
    | cons e rest =>
      have hd : d ≠ 0x20 := hw d List.mem_cons_self
      have hlt : pre.length < maxParmLength - 1 := by
        rw [List.length_cons] at hpre
        omega
      have hset : writeByte (pre ++ e :: rest) pre.length d = some (pre ++ [d] ++ rest) := by
        simp [writeByte]
      have := ih (pre ++ [d]) rest (fun d hd => hw d (List.mem_cons_of_mem _ hd))
        (by simpa [Nat.add_assoc, Nat.add_comm 1] using hpre) (by simpa using hrest)
      rw [List.length_append, List.length_singleton] at this
      rw [List.cons_append, copyWord, if_pos ⟨hd, hlt⟩, hset]
      simp only [Option.bind_eq_bind, Option.bind_some]
      rw [this]
      simp

/-- Behind a word stands a blank, or the end of the string. -/
def EndsWord (tail : Bytes) : Prop := tail = [] ∨ ∃ u, tail = 0x20 :: u

theorem copyWord_stop (carg : Bytes) (h : EndsWord args ∨ maxParmLength - 1 ≤ i) :
    copyWord carg i args = some (carg, i, args) := by
  rcases args with _ | ⟨d, args⟩
  · rfl
  · rw [copyWord, if_neg]
    rintro ⟨hd, hi⟩
    rcases h with (h | ⟨u, h⟩) | h
    · exact absurd h (List.cons_ne_nil d args)
    · exact hd (List.cons.inj h).1
    · exact absurd hi (Nat.not_lt.2 h)

/-- A byte is written behind what was copied. -/
theorem writeByte_append (pre : Bytes) (hrest : rest ≠ []) (c : UInt8) :
    writeByte (pre ++ rest) pre.length c = some (pre ++ c :: rest.tail) := by
  obtain ⟨d, rest, rfl⟩ := List.exists_cons_of_ne_nil hrest
  simp [writeByte]

/-- A word that fits is copied whole. -/
theorem copyWord_short (hcarg : carg.length = maxParmLength) (hw : ∀ d ∈ w, d ≠ 0x20)
    (hlen : w.length ≤ maxParmLength - 2) (htail : EndsWord tail) :
    copyWord carg 0 (w ++ tail) = some (w ++ carg.drop w.length, w.length, tail) := by
  have hcopy := copyWord_append [] carg hw (by rw [List.length_nil]; omega) (by omega) tail
  rw [List.nil_append, List.nil_append, List.length_nil] at hcopy
  rw [hcopy, copyWord_stop _ (.inl htail)]

/-- Of a longer word the first `MAX_PARM_LENGTH-1` bytes are copied. -/
theorem copyWord_long (hcarg : carg.length = maxParmLength) (hw : ∀ d ∈ w, d ≠ 0x20)
    (hlen : maxParmLength - 1 ≤ w.length) (tail : Bytes) :
    copyWord carg 0 (w ++ tail) =
      some (w.take (maxParmLength - 1) ++ carg.drop (maxParmLength - 1), maxParmLength - 1,
        w.drop (maxParmLength - 1) ++ tail) := by
  have htake : (w.take (maxParmLength - 1)).length = maxParmLength - 1 := by
    rw [List.length_take, Nat.min_eq_left hlen]
  have hcopy := copyWord_append [] carg (w := w.take (maxParmLength - 1))
    (fun d hd => hw d (List.mem_of_mem_take hd)) (by rw [htake, List.length_nil, Nat.zero_add])
    (by rw [htake, hcarg]; exact Nat.sub_le _ _) (w.drop (maxParmLength - 1) ++ tail)
  rw [List.nil_append, List.nil_append, List.length_nil, ← List.append_assoc,
    List.take_append_drop, htake] at hcopy
  rw [hcopy, copyWord_stop _ (.inr le_rfl)]

/-- The end of a round writes the NUL behind the copied bytes. -/
theorem writeByte_nul (hcarg : carg.length = maxParmLength) (hw : w.length < maxParmLength) :
    ∃ carg', carg'.length = maxParmLength ∧
      writeByte (w ++ carg.drop w.length) w.length 0 = some carg' ∧ (NoNul w → str carg' = w) := by
  have hrest : carg.drop w.length ≠ [] := fun h => by
    rw [List.drop_eq_nil_iff, hcarg] at h
    omega
  refine ⟨w ++ 0 :: (carg.drop w.length).tail, ?_, writeByte_append w hrest 0, fun hnul =>
    str_append_zero hnul _⟩
  rw [List.length_append, List.length_cons, List.length_tail, List.length_drop, hcarg]
  omega

/-- A round with a word that fits. -/
theorem parseLoop_short (n : ℕ) (f : ParmFlags) (hcarg : carg.length = maxParmLength)
    (hw : ∀ d ∈ w, d ≠ 0x20) (hnul : NoNul w) (hne : w ≠ []) (hlen : w.length ≤ maxParmLength - 2)
    (htail : EndsWord tail) (hstart : skipBlanks args = w ++ tail) :
    ∃ carg', carg'.length = maxParmLength ∧ parseLoop (n + 1) carg args f =
      if (lxParseArg w f).1 then some ([.parsed (w ++ tail).length w], (lxParseArg w f).2)
      else (parseLoop n carg' tail (lxParseArg w f).2).map fun r =>
        (.parsed (w ++ tail).length w :: r.1, r.2) := by
  have hargs : args ≠ [] := by
    rintro rfl
    exact hne (List.append_eq_nil_iff.1 hstart.symm).1
  have hlt : ¬ maxParmLength - 1 ≤ w.length := by
    simp only [maxParmLength] at hlen ⊢
    omega
  obtain ⟨carg', hcarg', hwrite, hstr⟩ := writeByte_nul hcarg (w := w) (by omega)
  have hstrlen : strlen carg' ≠ 0 := by
    rw [strlen, hstr hnul]
    exact fun h => hne (List.eq_nil_of_length_eq_zero h)
  refine ⟨carg', hcarg', ?_⟩
  simp only [parseLoop, hargs, if_false, hstart, copyWord_short hcarg hw hlen htail,
    Option.bind_eq_bind, Option.bind_some, hlt, hwrite, hstrlen, hstr hnul]
  rw [Option.map_eq_bind]
  rfl

/-- A round with a longer word. -/
theorem parseLoop_long (n : ℕ) (f : ParmFlags) (hcarg : carg.length = maxParmLength)
    (hw : ∀ d ∈ w, d ≠ 0x20) (hnul : NoNul w) (hlen : maxParmLength - 1 ≤ w.length)
    (hstart : skipBlanks args = w ++ tail) :
    ∃ carg', carg'.length = maxParmLength ∧ parseLoop (n + 1) carg args f =
      (parseLoop n carg' (w.drop (maxParmLength - 1) ++ tail) f).map fun r =>
        (.tooLong (w ++ tail).length (w.take (maxParmLength - 1)) :: r.1, r.2) := by
  have hpos : 0 < maxParmLength - 1 := by decide
  have hargs : args ≠ [] := by
    rintro rfl
    rw [(List.append_eq_nil_iff.1 hstart.symm).1, List.length_nil] at hlen
    omega
  have htake : (w.take (maxParmLength - 1)).length = maxParmLength - 1 := by
    rw [List.length_take, Nat.min_eq_left hlen]
  obtain ⟨carg', hcarg', hwrite, hstr⟩ := writeByte_nul hcarg (w := w.take (maxParmLength - 1))
    (by omega)
  rw [htake] at hwrite
  refine ⟨carg', hcarg', ?_⟩
  simp only [parseLoop, hargs, if_false, hstart, copyWord_long hcarg hw hlen,
    Option.bind_eq_bind, Option.bind_some, le_refl, if_true, hwrite, hstr (hnul.take _)]
  rw [Option.map_eq_bind]
  rfl

/-- The rounds come to an end where no word is left. -/
theorem parseLoop_blanks (n : ℕ) (f : ParmFlags) (hcarg : carg.length = maxParmLength)
    (hn : args.length < n) (hstart : skipBlanks args = []) :
    parseLoop n carg args f = some ([], f) := by
  obtain ⟨n, rfl⟩ : ∃ m, n = m + 1 := ⟨n - 1, by omega⟩
  by_cases hargs : args = []
  · rw [parseLoop, if_pos hargs]
  · have hpos : 0 < args.length := List.length_pos_iff.2 hargs
    obtain ⟨n, rfl⟩ : ∃ m, n = m + 1 := ⟨n - 1, by omega⟩
    have hlt : ¬ maxParmLength - 1 ≤ 0 := by decide
    obtain ⟨carg', hcarg', hwrite, hstr⟩ := writeByte_nul hcarg (w := []) (by decide)
    have hstrlen : strlen carg' = 0 := by
      rw [strlen, hstr (fun c hc => absurd hc List.not_mem_nil)]
      rfl
    rw [List.nil_append, List.length_nil, List.drop_zero] at hwrite
    simp only [parseLoop, hargs, if_false, hstart, copyWord, Option.bind_eq_bind,
      Option.bind_some, hlt, hwrite, hstrlen, if_true]

/-- The first word behind the blanks, and what is behind it. -/
theorem skipBlanks_cases (args : Bytes) : skipBlanks args = [] ∨ ∃ w tail,
    skipBlanks args = w ++ tail ∧ w ≠ [] ∧ (∀ d ∈ w, d ≠ 0x20) ∧ EndsWord tail := by
  induction args with
  | nil => exact .inl rfl
  | cons c args ih =>
    by_cases hc : c = 0x20
    · have hskip : skipBlanks (c :: args) = skipBlanks args :=
        List.dropWhile_cons_of_pos (by simpa using hc)
      rwa [hskip]
    · have hskip : skipBlanks (c :: args) = c :: args :=
        List.dropWhile_cons_of_neg (by simpa using hc)
      rw [hskip]
      refine .inr ?_
      by_cases hmem : (0x20 : UInt8) ∈ c :: args
      · obtain ⟨w, tail, heq, hw⟩ := List.eq_append_cons_of_mem hmem
        refine ⟨w, 0x20 :: tail, heq, ?_, fun d hd h => hw (h ▸ hd), .inr ⟨tail, rfl⟩⟩
        rintro rfl
        exact hc (List.cons.inj heq).1
      · exact ⟨c :: args, [], (List.append_nil _).symm, List.cons_ne_nil c args,
          fun d hd h => hmem (h ▸ hd), .inl rfl⟩

theorem skipBlanks_append (hw : ∀ d ∈ w, d ≠ 0x20) (hne : w ≠ []) (tail : Bytes) :
    skipBlanks (w ++ tail) = w ++ tail := by
  obtain ⟨d, w, rfl⟩ := List.exists_cons_of_ne_nil hne
  exact List.dropWhile_cons_of_neg (by simpa using hw d List.mem_cons_self)

theorem words_skipBlanks (args : Bytes) :
    Pieces.words 0x20 (skipBlanks args) = Pieces.words 0x20 args := by
  induction args with
  | nil => rfl
  | cons c args ih =>
    by_cases hc : c = 0x20
    · subst hc
      rw [Pieces.words_cons_self, ← ih]
      rfl
    · have hskip : skipBlanks (c :: args) = c :: args :=
        List.dropWhile_cons_of_neg (by simpa using hc)
      rw [hskip]

/-- The first event of a string that begins with a word is that of the word. -/
theorem head_parseLoop (n : ℕ) (f : ParmFlags) (hcarg : carg.length = maxParmLength)
    (hw : ∀ d ∈ w, d ≠ 0x20) (hnul : NoNul w) (hne : w ≠ []) (htail : EndsWord tail)
    (h : parseLoop n carg (w ++ tail) f = some r) : ∃ e ∈ r.1, e.left = (w ++ tail).length := by
  have hstart := skipBlanks_append hw hne tail
  cases n with
  | zero => simp [parseLoop] at h
  | succ n =>
    by_cases hlen : w.length ≤ maxParmLength - 2
    · obtain ⟨carg', -, hround⟩ := parseLoop_short n f hcarg hw hnul hne hlen htail hstart
      rw [hround] at h
      split_ifs at h
      · rw [← Option.some.inj h]
        exact ⟨_, List.mem_singleton_self _, rfl⟩
      · obtain ⟨q, -, rfl⟩ := Option.map_eq_some_iff.1 h
        exact ⟨_, List.mem_cons_self, rfl⟩
    · have hlong : maxParmLength - 1 ≤ w.length := by
        simp only [maxParmLength] at hlen ⊢
        omega
      obtain ⟨carg', -, hround⟩ := parseLoop_long n f hcarg hw hnul hlong hstart
      rw [hround] at h
      obtain ⟨q, -, rfl⟩ := Option.map_eq_some_iff.1 h
      exact ⟨_, List.mem_cons_self, rfl⟩

/-- The same event before two results. -/
theorem map_cons_eq_iff {x : Option (List ParmEvent × ParmFlags)} {q : List ParmEvent × ParmFlags}
    (e : ParmEvent) : (x.map fun r => (e :: r.1, r.2)) = some (e :: q.1, q.2) ↔ x = some q := by
  cases x <;> simp [Prod.ext_iff]

/-- What is left of a word that is too long is taken for a word. -/
theorem parseLoop_rest_ne (n : ℕ) (f : ParmFlags) (hcarg : carg.length = maxParmLength)
    (hw : ∀ d ∈ w, d ≠ 0x20) (hnul : NoNul w) (hlen : maxParmLength - 1 < w.length)
    (htail : EndsWord tail) :
    parseLoop n carg (w.drop (maxParmLength - 1) ++ tail) f ≠
      some (parseWords (Pieces.words 0x20 tail) f) := by
  intro h
  have hne : w.drop (maxParmLength - 1) ≠ [] := fun h' => by
    rw [List.drop_eq_nil_iff] at h'
    omega
  obtain ⟨e, he, hleft⟩ := head_parseLoop n f hcarg
    (fun d hd => hw d (List.mem_of_mem_drop hd)) (hnul.drop _) hne htail h
  obtain ⟨p, hp, heq⟩ := left_of_mem_parseWords he
  have hle := Pieces.length_le_of_mem_words hp
  have hpos := List.length_pos_iff.2 hne
  rw [← heq, hleft, List.length_append] at hle
  omega

/-- A round with a word that fits: what is left is to be done with the words behind it. -/
theorem parseLoop_short_iff {ws : List (ℕ × Bytes)} (n : ℕ) (f : ParmFlags)
    (hcarg : carg.length = maxParmLength) (hw : ∀ d ∈ w, d ≠ 0x20) (hnul : NoNul w) (hne : w ≠ [])
    (hlen : w.length ≤ maxParmLength - 2) (htail : EndsWord tail)
    (hstart : skipBlanks args = w ++ tail)
    (hrest : ∀ carg' f', carg'.length = maxParmLength →
      (parseLoop n carg' tail f' = some (parseWords ws f') ↔ WordsFit ws)) :
    parseLoop (n + 1) carg args f = some (parseWords (((w ++ tail).length, w) :: ws) f) ↔
      WordsFit (((w ++ tail).length, w) :: ws) := by
  have hlen' : w.length ≤ maxParmLength - 1 := by omega
  obtain ⟨carg', hcarg', hround⟩ := parseLoop_short n f hcarg hw hnul hne hlen htail hstart
  rw [hround, parseWords, WordsFit, if_pos hlen]
  by_cases hrej : (lxParseArg w f).1 = true
  · rw [if_pos hrej, if_pos hrej]
    exact iff_of_true rfl ⟨hlen', .inl ⟨hlen, (lxParseArg_fst w f).1 hrej⟩⟩
  · rw [if_neg hrej, if_neg hrej, map_cons_eq_iff, hrest carg' _ hcarg']
    have hknown : findParm w ≠ none := mt (lxParseArg_fst w f).2 hrej
    simp [hlen', hknown]

/-- A round with a longer word, of which something is left unless it has `MAX_PARM_LENGTH-1`
bytes. -/
theorem parseLoop_long_iff (n : ℕ) (f : ParmFlags) (hcarg : carg.length = maxParmLength)
    (hw : ∀ d ∈ w, d ≠ 0x20) (hnul : NoNul w) (hlen : ¬ w.length ≤ maxParmLength - 2)
    (htail : EndsWord tail) (hstart : skipBlanks args = w ++ tail)
    (hrest : ∀ carg' f', carg'.length = maxParmLength →
      (parseLoop n carg' tail f' = some (parseWords (Pieces.words 0x20 tail) f') ↔
        WordsFit (Pieces.words 0x20 tail))) :
    parseLoop (n + 1) carg args f =
        some (parseWords (((w ++ tail).length, w) :: Pieces.words 0x20 tail) f) ↔
      WordsFit (((w ++ tail).length, w) :: Pieces.words 0x20 tail) := by
  have hlong : maxParmLength - 1 ≤ w.length := by
    simp only [maxParmLength] at hlen ⊢
    omega
  obtain ⟨carg', hcarg', hround⟩ := parseLoop_long n f hcarg hw hnul hlong hstart
  rw [hround, parseWords, WordsFit, if_neg hlen, map_cons_eq_iff]
  rcases hlong.eq_or_lt with heq | hgt
  · rw [List.drop_of_length_le heq.ge, List.nil_append, hrest carg' f hcarg']
    simp [heq.ge, hlen]
  · exact iff_of_false (parseLoop_rest_ne n f hcarg' hw hnul hgt htail)
      fun h => absurd h.1 (Nat.not_le.2 hgt)

/-- The loop does what the words ask for if and only if they fit. -/
theorem parseLoop_iff (n : ℕ) (carg args : Bytes) (f : ParmFlags)
    (hcarg : carg.length = maxParmLength) (hnul : NoNul args) (hn : args.length < n) :
    parseLoop n carg args f = some (parseWords (Pieces.words 0x20 args) f) ↔
      WordsFit (Pieces.words 0x20 args) := by
  induction n generalizing carg args f with
  | zero => omega
  | succ n ih =>
    rw [← words_skipBlanks args]
    rcases skipBlanks_cases args with hnil | ⟨w, tail, hstart, hne, hw, htail⟩
    · rw [parseLoop_blanks (n + 1) f hcarg hn hnil, hnil]
      simp [parseWords, WordsFit]
    · have hnul' : NoNul (w ++ tail) := fun d hd =>
        hnul d (List.dropWhile_subset _ (hstart.symm ▸ hd))
      have hnulw : NoNul w := fun d hd => hnul' d (List.mem_append_left _ hd)
      have hlt : tail.length < n := by
        have hle : (skipBlanks args).length ≤ args.length := (List.dropWhile_sublist _).length_le
        have hpos := List.length_pos_iff.2 hne
        rw [hstart, List.length_append] at hle
        omega
      have hrest := fun carg' f hcarg' => ih carg' tail f hcarg' hnul'.of_append_right hlt
      rw [hstart, Pieces.words_append (fun h => hw _ h rfl) hne htail]
      by_cases hlen : w.length ≤ maxParmLength - 2
      · exact parseLoop_short_iff n f hcarg hw hnulw hne hlen htail hstart hrest
      · exact parseLoop_long_iff n f hcarg hw hnulw hlen htail hstart hrest

/-! ### The path of the driver -/

/-- The place of the last backslash of a word that is copied to the place `p`, or `sl`. -/
def lastSlash : ℕ → Option ℕ → Bytes → Option ℕ
  | _, sl, [] => sl
  | p, sl, c :: w => lastSlash (p + 1) (if c = 0x5c then some p else sl) w

/-- The first word fits `lx_drv_homepath`, with the NUL behind its last backslash. -/
def HomeFits (w : Bytes) : Prop :=
  w.length ≤ lxMaxpath ∧ (w.getLast? = some 0x5c → w.length < lxMaxpath)

instance (w : Bytes) : Decidable (HomeFits w) := inferInstanceAs (Decidable (_ ∧ _))

variable {home : Bytes} {p j : ℕ} {sl : Option ℕ}

theorem lastSlash_concat (p : ℕ) (sl : Option ℕ) (w : Bytes) (c : UInt8) :
    lastSlash p sl (w ++ [c]) = if c = 0x5c then some (p + w.length) else lastSlash p sl w := by
  induction w generalizing p sl with
  | nil => rfl
  | cons d w ih => rw [List.cons_append, lastSlash, ih, lastSlash, List.length_cons]; grind

theorem lt_of_lastSlash (h : lastSlash p none w = some j) : j < p + w.length := by
  induction w using List.reverseRecOn with
  | nil => simp [lastSlash] at h
  | append_singleton w c ih =>
    rw [lastSlash_concat] at h
    rw [List.length_append, List.length_singleton]
    split_ifs at h with hc
    · have := Option.some.inj h
      omega
    · have := ih h
      omega

theorem length_writeByte {b b' : Bytes} (h : writeByte b i c = some b') : b'.length = b.length := by
  unfold writeByte at h
  split_ifs at h
  rw [← Option.some.inj h, List.length_set]

/-- The first word is copied if there is room for it. -/
theorem copyHome_append (home : Bytes) (p : ℕ) (sl : Option ℕ) (hw : ∀ d ∈ w, d ≠ 0x20)
    (htail : EndsWord tail) (hfit : p + w.length ≤ home.length) :
    ∃ home', home'.length = home.length ∧
      copyHome home p sl (w ++ tail) = some (home', lastSlash p sl w, tail) := by
  induction w generalizing home p sl with
  | nil =>
    refine ⟨home, rfl, ?_⟩
    rcases htail with rfl | ⟨u, rfl⟩ <;> rfl
  | cons d w ih =>
    have hd : d ≠ 0x20 := hw d List.mem_cons_self
    rw [List.length_cons] at hfit
    have hwrite : writeByte home p d = some (home.set p d) := if_pos (by omega)
    obtain ⟨home', hlen, hcopy⟩ := ih (home.set p d) (p + 1) (if d = 0x5c then some p else sl)
      (fun e he => hw e (List.mem_cons_of_mem _ he)) (by rw [List.length_set]; omega)
    rw [List.length_set] at hlen
    exact ⟨home', hlen, by simp [copyHome, hd, hwrite, hcopy, lastSlash]⟩

/-- A first word for which there is no room is written behind `lx_drv_homepath`. -/
theorem copyHome_eq_none (home : Bytes) (p : ℕ) (sl : Option ℕ) (hw : ∀ d ∈ w, d ≠ 0x20)
    (tail : Bytes) (hp : p ≤ home.length) (hfit : home.length < p + w.length) :
    copyHome home p sl (w ++ tail) = none := by
  induction w generalizing home p sl with
  | nil => simp at hfit; omega
  | cons d w ih =>
    have hd : d ≠ 0x20 := hw d List.mem_cons_self
    rw [List.length_cons] at hfit
    cases hwrite : writeByte home p d with
    | none => simp [copyHome, hd, hwrite]
    | some home' =>
      have hlen := length_writeByte hwrite
      have hlt : p < home.length := by
        by_contra hge
        simp [writeByte, hge] at hwrite
      have := ih home' (p + 1) (if d = 0x5c then some p else sl)
        (fun e he => hw e (List.mem_cons_of_mem _ he)) (by omega) (by omega)
      simp [copyHome, hd, hwrite, this]

/-- There is room for the NUL behind the last backslash if the word fits. -/
theorem exists_endHome_iff (hhome : home.length = lxMaxpath) (hlen : w.length ≤ lxMaxpath) :
    (∃ home', (lastSlash 0 none w).elim (some home) (fun sl => writeByte home (sl + 1) 0) =
      some home') ↔ HomeFits w := by
  cases w using List.reverseRecOn with
  | nil => simp [lastSlash, HomeFits]
  | append_singleton w c =>
    have hlast : (w ++ [c]).getLast? = some c := List.getLast?_concat
    rw [List.length_append, List.length_singleton] at hlen
    rw [lastSlash_concat, HomeFits, hlast, List.length_append, List.length_singleton]
    by_cases hc : c = 0x5c
    · rw [if_pos hc, Option.elim_some, Nat.zero_add]
      simp [writeByte, hhome, hc, hlen]
    · rw [if_neg hc]
      refine iff_of_true ?_ ⟨hlen, fun h => absurd (Option.some.inj h) hc⟩
      cases hj : lastSlash 0 none w with
      | none => exact ⟨home, rfl⟩
      | some j =>
        have hlt := lt_of_lastSlash hj
        exact ⟨home.set (j + 1) 0, if_pos (by omega)⟩

/-- The first word is copied, and the parameters are those behind it. -/
theorem lxParseArgs_word (n : ℕ) (carg : Bytes) (f : ParmFlags) (hhome : home.length = lxMaxpath)
    (hw : ∀ d ∈ w, d ≠ 0x20) (htail : EndsWord tail) (hstart : skipBlanks args = w ++ tail)
    (r : List ParmEvent × ParmFlags) :
    (∃ home', lxParseArgs n (some carg) home (some args) f = some (home', r)) ↔
      HomeFits w ∧ parseLoop n carg tail f = some r := by
  by_cases hlen : w.length ≤ lxMaxpath
  · obtain ⟨home', hlen', hcopy⟩ := copyHome_append home 0 none hw htail (by omega)
    rw [hhome] at hlen'
    rw [← exists_endHome_iff hlen' hlen]
    simp only [lxParseArgs, hstart, hcopy, Option.bind_eq_bind, Option.bind_some]
    cases (lastSlash 0 none w).elim (some home') fun sl => writeByte home' (sl + 1) 0 <;>
      cases parseLoop n carg tail f <;> simp
  · have hcopy := copyHome_eq_none home 0 none hw tail (Nat.zero_le _) (by omega)
    refine iff_of_false ?_ fun h => hlen h.1.1
    rintro ⟨home', h⟩
    simp [lxParseArgs, hstart, hcopy] at h

/-! ### The line -/

/-- The path of the driver. -/
def homeWord (args : Bytes) : Bytes := (Pieces.words 0x20 args).head?.elim [] Prod.snd

/-- The parameters. -/
def parmWords (args : Bytes) : List (ℕ × Bytes) := (Pieces.words 0x20 args).tail

/-- `LX_parseArgs` writes inside the buffers and does what the words of the line ask for. -/
def ParsesWords (n : ℕ) (carg home args : Bytes) (f : ParmFlags) : Prop :=
  ∃ home', lxParseArgs n (some carg) home (some args) f =
    some (home', parseWords (parmWords args) f)

/-- The words behind the first. -/
theorem parsesWords_word (n : ℕ) (hcarg : carg.length = maxParmLength)
    (hhome : home.length = lxMaxpath) (hnul : NoNul args) (hn : args.length < n) (hne : w ≠ [])
    (hw : ∀ d ∈ w, d ≠ 0x20) (htail : EndsWord tail) (hstart : skipBlanks args = w ++ tail) :
    ParsesWords n carg home args f ↔ HomeFits w ∧ WordsFit (Pieces.words 0x20 tail) := by
  have hle : (skipBlanks args).length ≤ args.length := (List.dropWhile_sublist _).length_le
  have htail' : NoNul tail := fun d hd =>
    hnul d (List.dropWhile_subset _ (hstart.symm ▸ List.mem_append_right w hd))
  rw [hstart, List.length_append] at hle
  rw [ParsesWords, parmWords, ← words_skipBlanks args, hstart,
    Pieces.words_append (fun h => hw _ h rfl) hne htail,
    lxParseArgs_word n carg f hhome hw htail hstart]
  exact and_congr_right' (parseLoop_iff n carg tail f hcarg htail' (by omega))

/-- `LX_parseArgs` passes on the words of a line if and only if the path of the driver and the
parameters fit. -/
theorem parsesWords_iff (n : ℕ) (carg home args : Bytes) (f : ParmFlags)
    (hcarg : carg.length = maxParmLength) (hhome : home.length = lxMaxpath) (hnul : NoNul args)
    (hn : args.length < n) :
    ParsesWords n carg home args f ↔ HomeFits (homeWord args) ∧ WordsFit (parmWords args) := by
  rcases skipBlanks_cases args with hnil | ⟨w, tail, hstart, hne, hw, htail⟩
  · have hblanks : skipBlanks ([] : Bytes) = [] := rfl
    have hloop := parseLoop_blanks n f hcarg (by rw [List.length_nil]; omega) hblanks
    rw [ParsesWords, homeWord, parmWords, ← words_skipBlanks args,
      lxParseArgs_word n carg f hhome (w := []) (fun d hd => absurd hd List.not_mem_nil)
      (.inl rfl) hnil, hloop, hnil]
    simp [parseWords, WordsFit]
  · rw [parsesWords_word n hcarg hhome hnul hn hne hw htail hstart, homeWord, parmWords,
      ← words_skipBlanks args, hstart, Pieces.words_append (fun h => hw _ h rfl) hne htail]
    rfl

/-- The line `a /V`. -/
theorem parsesWords_verbose :
    ParsesWords 5 (List.replicate 256 0) (List.replicate 260 0) [0x61, 0x20, 0x2f, 0x56]
        ⟨false, false, true⟩ ↔
      HomeFits (homeWord [0x61, 0x20, 0x2f, 0x56]) ∧
        WordsFit (parmWords [0x61, 0x20, 0x2f, 0x56]) :=
  parsesWords_iff 5 _ _ _ _ (List.length_replicate ..) (List.length_replicate ..) (by decide)
    (by decide)

/-- A parameter that is too long, behind the path `a`. -/
theorem not_parsesWords_long (n : ℕ) (f : ParmFlags) (hcarg : carg.length = maxParmLength)
    (hhome : home.length = lxMaxpath) (hw : ∀ d ∈ w, d ≠ 0x20) (hnul : NoNul w)
    (hlen : maxParmLength ≤ w.length) (hn : w.length + 2 < n) :
    ¬ ParsesWords n carg home (0x61 :: 0x20 :: w) f := by
  have hpos : maxParmLength - 1 < w.length := Nat.lt_of_lt_of_le (by decide) hlen
  have hne : w ≠ [] := List.length_pos_iff.1 (Nat.zero_lt_of_lt hpos)
  have hword := Pieces.words_append (fun h => hw _ h rfl) hne (.inl rfl)
  rw [List.append_nil, Pieces.words_nil] at hword
  have hnul' : NoNul (0x61 :: 0x20 :: w) := NoNul.append (s := [0x61, 0x20]) (by decide) hnul
  rw [parsesWords_word n hcarg hhome hnul' hn (List.cons_ne_nil 0x61 []) (by simp)
    (.inr ⟨w, rfl⟩) rfl, Pieces.words_cons_self, hword]
  exact fun h => absurd h.2.1 (Nat.not_le.2 hpos)

/-- A parameter of 256 bytes: its last byte is taken for one more. -/
theorem not_parsesWords_256 :
    ¬ ParsesWords 300 (List.replicate 256 0) (List.replicate 260 0)
      (0x61 :: 0x20 :: List.replicate 256 0x78) ⟨false, false, true⟩ := by
  have hx : ∀ d ∈ List.replicate 256 (0x78 : UInt8), d ≠ 0x20 ∧ d ≠ 0 := fun d hd => by
    rw [List.eq_of_mem_replicate hd]
    decide
  have hlen : (List.replicate 256 (0x78 : UInt8)).length = 256 := List.length_replicate ..
  exact not_parsesWords_long 300 _ (List.length_replicate ..) (List.length_replicate ..)
    (fun d hd => (hx d hd).1) (fun d hd => (hx d hd).2) hlen.ge (by rw [hlen]; decide)

end

end LxApi32
