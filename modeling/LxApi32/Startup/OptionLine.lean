import LxApi32.Startup.OptionList
import Mathlib.Tactic.Common

/-!
# The line of an option

`LX_set_option_from_string` takes a line apart: the name of a module, and for each of its options
a blank, a key, `=` and a value.

* `copyPart_append` : the loops that copy a part of the line.
* `length_optionLoop_le` : the pointer does not go back.
* `optionLoop_behind` : after the options of a line it is behind the line.
* `lxSetOptionFromString_zeros` : the calls for the options of a line with zeros behind it.
* `optionLineOk_iff` : when only the line is read.

The line is given with the bytes that stand behind it in memory.  A function has no result where
it would read behind these, or write behind a field.
-/

namespace LxApi32

/-- `MODULE_NAME_LEN` -/
def moduleNameLen : ℕ := 60

/-- The size of `option_name`. -/
def optionNameLen : ℕ := 64

/-- The size of `option_val`. -/
def optionValLen : ℕ := 100

/-! ### The functions -/

/-- A loop `while(..) *pOut++=*pIn++; *pOut=0;` over a field of the size `n` : what is copied, and
what `pIn` points to then. -/
def copyPart (p : UInt8 → Bool) : ℕ → Bytes → Option (Bytes × Bytes)
  | 0, _ => none
  | _ + 1, [] => none
  | n + 1, c :: pIn =>
    if p c then (copyPart p n pIn).map fun r => (c :: r.1, r.2) else some ([], c :: pIn)

/-- The bytes of the module name: `*pIn && *pIn!=' '`, which those of a value are too. -/
def isValueByte (c : UInt8) : Bool := c != 0 && c != 0x20

/-- The bytes of a key: `*pIn && *pIn!='=' && *pIn!=' '`. -/
def isKeyByte (c : UInt8) : Bool := c != 0 && c != 0x3d && c != 0x20

/-- A field that was filled with zeros and got a string. -/
def optionField (n : ℕ) (s : Bytes) : Bytes := s ++ List.replicate (n - s.length) 0

/-- A round of the loop of `LX_set_option_from_string`, whose `kmalloc` has the result `got` : the
entry that it adds, none where the loop ends, and what `pIn` points to then. -/
def optionRound (got : Bool) (modName pIn : Bytes) : Option (Option LxModuleOption × Bytes) := do
  let c ← pIn.head?
  if c = 0 ∨ !got then some (none, pIn)
  else do
    let (name, pIn) ← copyPart isKeyByte optionNameLen pIn
    let c ← pIn.head?
    -- `!*(pIn++)` reads this byte once more
    if c = 0 then some (none, pIn)
    else do
      let (val, pIn) ← copyPart isValueByte optionValLen pIn.tail
      some (some ⟨optionField moduleNameLen modName, optionField optionNameLen name,
        optionField optionValLen val⟩, pIn)

/-- The loop of `LX_set_option_from_string`, for `n` rounds at most, of which the first does the
`k`-th `kmalloc` : the calls of `LX_add_or_replace_option`, and what `pIn` points to in the end. -/
def optionLoop (kmalloc : ℕ → Bool) (modName : Bytes) :
    ℕ → ℕ → Bytes → Option (List LxModuleOption × Bytes)
  | 0, _, _ => none
  | n + 1, k, pIn =>
    match optionRound (kmalloc k) modName pIn with
    | none => none
    | some (none, pIn) => some ([], pIn)
    | some (some pop, pIn) =>
      (optionLoop kmalloc modName n (k + 1) pIn.tail).map fun r => (pop :: r.1, r.2)

/-- `LX_set_option_from_string` -/
def lxSetOptionFromString (kmalloc : ℕ → Bool) (n : ℕ) (op : Bytes) :
    Option (List LxModuleOption × Bytes) :=
  if kmalloc 0 then do
    let (modName, pIn) ← copyPart isValueByte moduleNameLen op
    let c ← pIn.head?
    if c = 0 then some ([], pIn) else optionLoop kmalloc modName n 1 pIn.tail
  else some ([], op)

/-! ### The line -/

/-- The options of a line. -/
def optionText : List (Bytes × Bytes) → Bytes
  | [] => []
  | (key, val) :: ps => 0x20 :: (key ++ 0x3d :: (val ++ optionText ps))

/-- A part of a line that fits its field. -/
def IsPart (p : UInt8 → Bool) (n : ℕ) (s : Bytes) : Prop := (∀ c ∈ s, p c = true) ∧ s.length < n

instance (p : UInt8 → Bool) (n : ℕ) (s : Bytes) : Decidable (IsPart p n s) :=
  letI := List.decidableBAll (fun c => p c = true) s
  inferInstanceAs (Decidable (_ ∧ _))

/-- The call that an option of a line asks for. -/
def optionCall (modName : Bytes) (p : Bytes × Bytes) : LxModuleOption :=
  ⟨optionField moduleNameLen modName, optionField optionNameLen p.1, optionField optionValLen p.2⟩

/-- `LX_set_option_from_string` comes to its end on a line with the bytes `behind` after the NUL,
reads none of these, and makes one call for each option of the line. -/
def OptionLineOk (kmalloc : ℕ → Bool) (modName : Bytes) (ps : List (Bytes × Bytes))
    (behind : Bytes) : Prop :=
  ∃ n calls pIn,
    lxSetOptionFromString kmalloc n (modName ++ optionText ps ++ 0 :: behind) =
      some (calls, pIn) ∧
    behind.length < pIn.length ∧ calls = ps.map (optionCall modName)

/-! ### The loops -/

section

variable {kmalloc : ℕ → Bool} {p : UInt8 → Bool} {n k : ℕ} {c : UInt8}
  {s out pIn pIn' modName behind : Bytes} {ps : List (Bytes × Bytes)} {calls : List LxModuleOption}

/-- A part that fits its field is copied, up to the byte that ends it. -/
theorem copyPart_append (hs : IsPart p n s) (hc : p c = false) (pIn : Bytes) :
    copyPart p n (s ++ c :: pIn) = some (s, c :: pIn) := by
  obtain ⟨hp, hn⟩ := hs
  induction s generalizing n with
  | nil =>
    obtain ⟨n, rfl⟩ : ∃ m, n = m + 1 := ⟨n - 1, by simp at hn; omega⟩
    simp [copyPart, hc]
  | cons d s ih =>
    obtain ⟨n, rfl⟩ : ∃ m, n = m + 1 := ⟨n - 1, by simp at hn; omega⟩
    have hrest := ih (fun e he => hp e (List.mem_cons_of_mem d he)) (by simpa using hn)
    simp [copyPart, hp d List.mem_cons_self, hrest]

theorem length_copyPart_le (h : copyPart p n pIn = some (out, pIn')) :
    pIn'.length ≤ pIn.length := by
  induction n generalizing pIn out with
  | zero => simp [copyPart] at h
  | succ n ih =>
    cases pIn with
    | nil => simp [copyPart] at h
    | cons c pIn =>
      rw [copyPart] at h
      split_ifs at h
      · obtain ⟨r, hr, heq⟩ := Option.map_eq_some_iff.1 h
        obtain ⟨-, rfl⟩ := Prod.mk.inj heq
        exact (ih hr).trans (Nat.le_succ _)
      · obtain ⟨-, rfl⟩ := Prod.mk.inj (Option.some.inj h)
        exact le_rfl

theorem length_optionRound_le {got : Bool} {o : Option LxModuleOption}
    (h : optionRound got modName pIn = some (o, pIn')) : pIn'.length ≤ pIn.length := by
  simp only [optionRound, Option.bind_eq_bind, Option.bind_eq_some_iff] at h
  obtain ⟨c, -, h⟩ := h
  split_ifs at h
  · obtain ⟨-, rfl⟩ := Prod.mk.inj (Option.some.inj h)
    exact le_rfl
  · obtain ⟨name, hname, h⟩ := Option.bind_eq_some_iff.1 h
    obtain ⟨d, -, h⟩ := Option.bind_eq_some_iff.1 h
    have hname' : name.2.length ≤ pIn.length := length_copyPart_le hname
    split_ifs at h
    · obtain ⟨-, rfl⟩ := Prod.mk.inj (Option.some.inj h)
      exact hname'
    · obtain ⟨val, hval, h⟩ := Option.bind_eq_some_iff.1 h
      obtain ⟨-, rfl⟩ := Prod.mk.inj (Option.some.inj h)
      have htail : name.2.tail.length ≤ name.2.length := by simp
      exact ((length_copyPart_le hval).trans htail).trans hname'

/-- The pointer does not go back. -/
theorem length_optionLoop_le (h : optionLoop kmalloc modName n k pIn = some (calls, pIn')) :
    pIn'.length ≤ pIn.length := by
  induction n generalizing k pIn calls with
  | zero => simp [optionLoop] at h
  | succ n ih =>
    rw [optionLoop] at h
    match hr : optionRound (kmalloc k) modName pIn with
    | none => simp [hr] at h
    | some (none, pIn₁) =>
      simp only [hr] at h
      obtain ⟨-, rfl⟩ := Prod.mk.inj (Option.some.inj h)
      exact length_optionRound_le hr
    | some (some pop, pIn₁) =>
      simp only [hr] at h
      obtain ⟨r, hloop, heq⟩ := Option.map_eq_some_iff.1 h
      obtain ⟨-, rfl⟩ := Prod.mk.inj heq
      calc r.2.length ≤ pIn₁.tail.length := ih hloop
        _ ≤ pIn₁.length := by simp
        _ ≤ pIn.length := length_optionRound_le hr

/-! ### The options of a line -/

/-- The parts of an option fit their fields. -/
def IsOption (p : Bytes × Bytes) : Prop :=
  IsPart isKeyByte optionNameLen p.1 ∧ IsPart isValueByte optionValLen p.2

instance (p : Bytes × Bytes) : Decidable (IsOption p) := inferInstanceAs (Decidable (_ ∧ _))

/-- Behind the name of the module and behind a value stands a byte that ends it: a blank, or the
NUL. -/
theorem optionText_end (ps : List (Bytes × Bytes)) (behind : Bytes) :
    ∃ c rest, optionText ps ++ 0 :: behind = c :: rest ∧ isValueByte c = false := by
  cases ps with
  | nil => exact ⟨0, behind, rfl, rfl⟩
  | cons q ps => exact ⟨0x20, _, rfl, rfl⟩

/-- A round for an option. -/
theorem optionRound_option {key val : Bytes} (hkey : IsPart isKeyByte optionNameLen key)
    (hval : IsPart isValueByte optionValLen val) (modName : Bytes) (hc : isValueByte c = false)
    (rest : Bytes) :
    optionRound true modName (key ++ 0x3d :: (val ++ c :: rest)) =
      some (some (optionCall modName (key, val)), c :: rest) := by
  have hhead : ∃ d, (key ++ 0x3d :: (val ++ c :: rest)).head? = some d ∧ d ≠ 0 := by
    cases key with
    | nil => exact ⟨0x3d, rfl, by decide⟩
    | cons d key =>
      have hd : isKeyByte d = true := hkey.1 d List.mem_cons_self
      exact ⟨d, rfl, fun h => by simp [h, isKeyByte] at hd⟩
  obtain ⟨d, hd, hne⟩ := hhead
  have hname := copyPart_append hkey (c := 0x3d) rfl (val ++ c :: rest)
  simp [optionRound, hd, hne, hname, copyPart_append hval hc, optionCall]

/-- Without memory the loop ends. -/
theorem calls_eq_nil (hgot : kmalloc k = false)
    (h : optionLoop kmalloc modName (n + 1) k pIn = some (calls, pIn')) : calls = [] := by
  cases pIn with
  | nil => simp [optionLoop, optionRound] at h
  | cons c pIn =>
    simp [optionLoop, optionRound, hgot] at h
    exact h.1

/-- After the options of a line the pointer is behind the line. -/
theorem optionLoop_behind (hps : ∀ q ∈ ps, IsOption q) (hne : ps ≠ [])
    (h : optionLoop kmalloc modName n k ((optionText ps ++ 0 :: behind).tail) = some (calls, pIn'))
    (hcalls : calls.length = ps.length) : pIn'.length ≤ behind.length := by
  induction ps generalizing n k calls with
  | nil => exact absurd rfl hne
  | cons q ps ih =>
    obtain ⟨key, val⟩ := q
    obtain ⟨hkey, hval⟩ := hps _ List.mem_cons_self
    obtain ⟨c, rest, hrest, hc⟩ := optionText_end ps behind
    have htail : (optionText ((key, val) :: ps) ++ 0 :: behind).tail =
        key ++ 0x3d :: (val ++ c :: rest) := by
      simp [optionText, hrest]
    rw [htail] at h
    cases n with
    | zero => simp [optionLoop] at h
    | succ n =>
      cases hgot : kmalloc k with
      | false => simp [calls_eq_nil hgot h] at hcalls
      | true =>
        rw [optionLoop, hgot, optionRound_option hkey hval modName hc rest] at h
        obtain ⟨r, hloop, heq⟩ := Option.map_eq_some_iff.1 h
        obtain ⟨rfl, rfl⟩ := Prod.mk.inj heq
        rw [← hrest] at hloop
        by_cases hnil : ps = []
        · subst hnil
          exact length_optionLoop_le hloop
        · exact ih (fun q hq => hps q (List.mem_cons_of_mem _ hq)) hnil hloop
            (by simpa using hcalls)

/-- With a zero behind the line, as `LX_si_linein` leaves it, the calls are those for its
options. -/
theorem optionLoop_eq (hgot : ∀ k, kmalloc k = true) (hps : ∀ q ∈ ps, IsOption q) (modName : Bytes)
    (k : ℕ) (behind : Bytes) :
    optionLoop kmalloc modName (ps.length + 1) k (optionText ps ++ 0 :: 0 :: behind).tail =
      some (ps.map (optionCall modName), 0 :: behind) := by
  induction ps generalizing k with
  | nil => simp [optionLoop, optionRound, optionText]
  | cons q ps ih =>
    obtain ⟨key, val⟩ := q
    obtain ⟨hkey, hval⟩ := hps _ List.mem_cons_self
    obtain ⟨c, rest, hrest, hc⟩ := optionText_end ps (0 :: behind)
    have htail : (optionText ((key, val) :: ps) ++ 0 :: 0 :: behind).tail =
        key ++ 0x3d :: (val ++ c :: rest) := by
      simp [optionText, hrest]
    have hloop := ih (fun q hq => hps q (List.mem_cons_of_mem _ hq)) (k + 1)
    rw [hrest, List.tail_cons] at hloop
    rw [htail, optionLoop, hgot, optionRound_option hkey hval modName hc rest]
    simp [hloop]

/-- A line without options. -/
theorem lxSetOptionFromString_nil (hgot : kmalloc 0 = true)
    (hmod : IsPart isValueByte moduleNameLen modName) (n : ℕ) (behind : Bytes) :
    lxSetOptionFromString kmalloc n (modName ++ optionText [] ++ 0 :: behind) =
      some ([], 0 :: behind) := by
  have hname := copyPart_append hmod (c := 0) rfl behind
  simp [lxSetOptionFromString, hgot, optionText, hname]

/-- A line with options. -/
theorem lxSetOptionFromString_cons (hgot : kmalloc 0 = true)
    (hmod : IsPart isValueByte moduleNameLen modName) (n : ℕ) (q : Bytes × Bytes)
    (ps : List (Bytes × Bytes)) (behind : Bytes) :
    lxSetOptionFromString kmalloc n (modName ++ optionText (q :: ps) ++ 0 :: behind) =
      optionLoop kmalloc modName n 1 (optionText (q :: ps) ++ 0 :: behind).tail := by
  have hname := copyPart_append hmod (c := 0x20) rfl (optionText (q :: ps) ++ 0 :: behind).tail
  have hline : modName ++ optionText (q :: ps) ++ 0 :: behind =
      modName ++ 0x20 :: (optionText (q :: ps) ++ 0 :: behind).tail := by
    simp [optionText]
  simp [lxSetOptionFromString, hgot, hline, hname]

/-- With zeros behind the line, the calls are those for its options. -/
theorem lxSetOptionFromString_zeros (hgot : ∀ k, kmalloc k = true)
    (hmod : IsPart isValueByte moduleNameLen modName) (hps : ∀ q ∈ ps, IsOption q)
    (behind : Bytes) :
    ∃ n pIn, lxSetOptionFromString kmalloc n (modName ++ optionText ps ++ 0 :: 0 :: behind) =
      some (ps.map (optionCall modName), pIn) := by
  cases ps with
  | nil => exact ⟨0, _, lxSetOptionFromString_nil (hgot 0) hmod 0 (0 :: behind)⟩
  | cons q ps =>
    refine ⟨(q :: ps).length + 1, 0 :: behind, ?_⟩
    rw [lxSetOptionFromString_cons (hgot 0) hmod]
    exact optionLoop_eq hgot hps modName 1 behind

/-- On a line with options, a byte behind it is read or an option is left out. -/
theorem not_optionLineOk (kmalloc : ℕ → Bool) (behind : Bytes)
    (hmod : IsPart isValueByte moduleNameLen modName) (hps : ∀ q ∈ ps, IsOption q) (hne : ps ≠ []) :
    ¬ OptionLineOk kmalloc modName ps behind := by
  rintro ⟨n, calls, pIn, h, hpIn, hcalls⟩
  have hlen : calls.length = ps.length := by rw [hcalls, List.length_map]
  cases hgot : kmalloc 0 with
  | false =>
    simp [lxSetOptionFromString, hgot] at h
    rw [h.1, List.length_nil] at hlen
    exact hne (List.eq_nil_of_length_eq_zero hlen.symm)
  | true =>
    obtain ⟨q, qs, rfl⟩ := List.exists_cons_of_ne_nil hne
    rw [lxSetOptionFromString_cons hgot hmod] at h
    exact absurd (optionLoop_behind hps hne h hlen) (Nat.not_le.2 hpIn)

/-- Only the line is read, and the calls are those for its options, if and only if it has none. -/
theorem optionLineOk_iff (kmalloc : ℕ → Bool) (modName : Bytes) (ps : List (Bytes × Bytes))
    (behind : Bytes) (hmod : IsPart isValueByte moduleNameLen modName)
    (hps : ∀ q ∈ ps, IsOption q) : OptionLineOk kmalloc modName ps behind ↔ ps = [] := by
  constructor
  · intro h
    by_contra hne
    exact not_optionLineOk kmalloc behind hmod hps hne h
  · rintro rfl
    cases hgot : kmalloc 0 with
    | false =>
      refine ⟨0, [], modName ++ 0 :: behind, ?_, ?_, rfl⟩
      · simp [lxSetOptionFromString, hgot, optionText]
      · simp
        omega
    | true =>
      exact ⟨0, [], 0 :: behind, lxSetOptionFromString_nil hgot hmod 0 behind, by simp, rfl⟩

/-- The line `m k=v`. -/
theorem optionLineOk_one :
    OptionLineOk (fun _ => true) [109] [([107], [118])] [0] ↔
      ([([107], [118])] : List (Bytes × Bytes)) = [] :=
  optionLineOk_iff (fun _ => true) [109] [([107], [118])] [0] (by decide) (by decide)

/-- The byte behind the line `m k=v` is read. -/
theorem not_optionLineOk_one : ¬ OptionLineOk (fun _ => true) [109] [([107], [118])] [0] :=
  not_optionLineOk (fun _ => true) [0] (by decide) (by decide) (List.cons_ne_nil _ _)

end

end LxApi32
