import LxApi32.Lib.CString
import LxApi32.Lib.Resume

/-!
# Parameters of modules

`_LX_find_modparm` looks for a parameter in the segments of the modules, and is given its last
result to find the next one.

* `lxFindModparm_eq` : it goes on behind the first parameter with the name of the last result.
* `findAll_iff` : when all parameters are found.
-/

namespace LxApi32

open CString

/-- `struct obsolete_modparm` -/
structure ObsoleteModparm where
  /-- Where it is. -/
  addr : ℕ
  /-- `name` -/
  name : Bytes
  deriving DecidableEq, Repr

/-- `modparms` and `modparm_count` of a `struct lx_SYMPARM_segment` -/
abbrev SymparmSegment := List ObsoleteModparm

/-- The test of `_LX_find_modparm`. -/
def modparmMatches (symname : Bytes) (doExact : Bool) (name : Bytes) : Bool :=
  (!doExact && strncmp name symname (strlen symname) == 0) || strcmp name symname == 0

/-- The loop over a segment, with the name of `pFrom` : the parameter that is returned, or `pFrom`
behind the segment. -/
def segmentLoop (symname : Bytes) (doExact : Bool) :
    Option Bytes → SymparmSegment → ObsoleteModparm ⊕ Option Bytes
  | pFrom, [] => .inr pFrom
  | some from', pmp :: pmps =>
    if strcmp pmp.name from' = 0 then segmentLoop symname doExact none pmps
    else segmentLoop symname doExact (some from') pmps
  | none, pmp :: pmps =>
    if modparmMatches symname doExact pmp.name then .inl pmp
    else segmentLoop symname doExact none pmps

/-- The loop over `SYMPARM_segments`. -/
def segmentsLoop (symname : Bytes) (doExact : Bool) :
    Option Bytes → List SymparmSegment → Option ObsoleteModparm
  | _, [] => none
  | pFrom, pseg :: psegs =>
    match segmentLoop symname doExact pFrom pseg with
    | .inl pmp => some pmp
    | .inr pFrom => segmentsLoop symname doExact pFrom psegs

/-- `_LX_find_modparm` -/
def lxFindModparm (segs : List SymparmSegment) (symname : Bytes) (doExact : Bool)
    (pModParm : Option ObsoleteModparm) : Option ObsoleteModparm :=
  segmentsLoop symname doExact (pModParm.map (·.name)) segs

/-- The results of calls that are given the last one, until a call returns 0; `n` calls at most. -/
def findAll (segs : List SymparmSegment) (symname : Bytes) (doExact : Bool) :
    ℕ → Option ObsoleteModparm → Option (List ObsoleteModparm)
  | 0, _ => none
  | n + 1, pModParm =>
    match lxFindModparm segs symname doExact pModParm with
    | none => some []
    | some pmp => (findAll segs symname doExact n (some pmp)).map (pmp :: ·)

/-! ### The parameters that match -/

/-- The name of a parameter. -/
def ObsoleteModparm.key (pmp : ObsoleteModparm) : Bytes := str pmp.name

/-- A name is equal to `symname`, or begins with it when `doExact` is 0. -/
def NameMatches (symname : Bytes) (doExact : Bool) (name : Bytes) : Prop :=
  name = str symname ∨ doExact = false ∧ str symname <+: name

instance (symname : Bytes) (doExact : Bool) (name : Bytes) :
    Decidable (NameMatches symname doExact name) := inferInstanceAs (Decidable (_ ∨ _))

/-- The parameters that match, in the order of the segments. -/
def matching (segs : List SymparmSegment) (symname : Bytes) (doExact : Bool) :
    List ObsoleteModparm :=
  segs.flatten.filter fun pmp => NameMatches symname doExact pmp.key

section

variable {symname : Bytes} {doExact : Bool} {pmps : SymparmSegment} {segs : List SymparmSegment}

theorem modparmMatches_eq (symname : Bytes) (doExact : Bool) (pmp : ObsoleteModparm) :
    modparmMatches symname doExact pmp.name = decide (NameMatches symname doExact pmp.key) := by
  rw [Bool.eq_iff_iff, decide_eq_true_iff, modparmMatches, NameMatches, ObsoleteModparm.key,
    Bool.or_eq_true, Bool.and_eq_true, beq_iff_eq, beq_iff_eq, strcmp_eq_zero_iff, strncmp_strlen,
    Bool.not_eq_true']
  exact or_comm

/-- The loop over a segment, and then over others, goes on behind the first parameter with the name
of `pFrom`. -/
theorem nextFrom_append (pFrom : Option Bytes) (pmps rest : List ObsoleteModparm) :
    Resume.nextFrom ObsoleteModparm.key (fun k => NameMatches symname doExact k) (pmps ++ rest)
        (pFrom.map str) =
      match segmentLoop symname doExact pFrom pmps with
      | .inl pmp => some pmp
      | .inr pFrom => Resume.nextFrom ObsoleteModparm.key (fun k => NameMatches symname doExact k)
        rest (pFrom.map str) := by
  induction pmps generalizing pFrom with
  | nil => cases pFrom <;> rfl
  | cons pmp pmps ih =>
    cases pFrom with
    | none =>
      rw [List.cons_append, Option.map_none, Resume.nextFrom_cons_none, segmentLoop,
        modparmMatches_eq]
      split_ifs with h
      · rfl
      · exact ih none
    | some name =>
      rw [List.cons_append, Option.map_some, Resume.nextFrom_cons_some, segmentLoop]
      simp only [strcmp_eq_zero_iff]
      have hkey : pmp.key = str pmp.name := rfl
      rw [hkey]
      split_ifs with h
      · exact ih none
      · exact ih (some name)

theorem segmentsLoop_eq (pFrom : Option Bytes) (segs : List SymparmSegment) :
    segmentsLoop symname doExact pFrom segs =
      Resume.nextFrom ObsoleteModparm.key (fun k => NameMatches symname doExact k) segs.flatten
        (pFrom.map str) := by
  induction segs generalizing pFrom with
  | nil => cases pFrom <;> rfl
  | cons pseg psegs ih =>
    rw [List.flatten_cons, nextFrom_append, segmentsLoop]
    cases segmentLoop symname doExact pFrom pseg with
    | inl pmp => rfl
    | inr pFrom => exact ih pFrom

/-- `_LX_find_modparm` goes on behind the first parameter with the name of the last result. -/
theorem lxFindModparm_eq (segs : List SymparmSegment) (symname : Bytes) (doExact : Bool)
    (pModParm : Option ObsoleteModparm) :
    lxFindModparm segs symname doExact pModParm =
      Resume.nextFrom ObsoleteModparm.key (fun k => NameMatches symname doExact k) segs.flatten
        (pModParm.map (·.key)) := by
  rw [lxFindModparm, segmentsLoop_eq, Option.map_map]
  rfl

theorem findAll_eq (n : ℕ) (pModParm : Option ObsoleteModparm) :
    findAll segs symname doExact n pModParm =
      Resume.enum ObsoleteModparm.key (fun k => NameMatches symname doExact k) segs.flatten n
        (pModParm.map (·.key)) := by
  induction n generalizing pModParm with
  | zero => rfl
  | succ n ih =>
    rw [findAll, Resume.enum, lxFindModparm_eq]
    cases Resume.nextFrom ObsoleteModparm.key (fun k => NameMatches symname doExact k) segs.flatten
        (pModParm.map (·.key)) with
    | none => rfl
    | some pmp => exact congrArg (Option.map (pmp :: ·)) (ih (some pmp))

/-- The calls find all parameters that match, once each and in order, and then return 0, if and only
if these have different names. -/
theorem findAll_iff (segs : List SymparmSegment) (symname : Bytes) (doExact : Bool) :
    (∃ n, findAll segs symname doExact n none = some (matching segs symname doExact)) ↔
      ((matching segs symname doExact).map (·.key)).Nodup := by
  simp only [findAll_eq, Option.map_none]
  exact Resume.enum_eq_selected_iff segs.flatten

/-- Two segments with a parameter `a` each, and one of them with a parameter `b`. -/
theorem not_findAll_twice :
    ¬ ∃ n, findAll [[⟨1, [97, 0]⟩, ⟨2, [98, 0]⟩], [⟨3, [97, 0]⟩]] [97, 0] true n none =
      some (matching [[⟨1, [97, 0]⟩, ⟨2, [98, 0]⟩], [⟨3, [97, 0]⟩]] [97, 0] true) := by
  rintro ⟨n, h⟩
  rw [findAll_eq] at h
  exact absurd (Resume.nodup_of_enum h) (by decide)

end

end LxApi32
