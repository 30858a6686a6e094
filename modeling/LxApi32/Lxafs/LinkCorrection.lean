import LxApi32.Daemon.Packet
import LxApi32.Lxafs.Path
import Mathlib.Logic.Function.Basic

/-!
# Renaming a directory in the link attributes

A hard link of lxafs is a file with an extended attribute `LX_LT` that names the linked file,
and that file counts its links in `LX_LC` and names them in `LX_LB_1`, `LX_LB_2`, ...  After a
directory was moved, the daemon goes through its tree and corrects these paths.  It does so
level by level: in a file of the directory `old/sub`, which is now `new/sub`, it exchanges
`old/sub` at the front of a path for `new/sub`.

* `ea_lxafsCorrectLinkinfo` : what the attributes of one file are then.
* `cmdLxafsRename_corrected_iff` : the paths below the moved directory, and no others, are
  corrected exactly if every such path starts with the characters of the directory its file is
  in, and can be written, and no other path does.
* `not_corrected_crossLink` : a link from `old/sub` to a file of `old` is not corrected.
-/

namespace LxApi32

open CString

/-- The extended attributes that describe links. -/
inductive EaName
  /-- `LX_LC` -/
  | linkByCount
  /-- `LX_LB_i` -/
  | linkedBy (i : ℕ)
  /-- `LX_LT` -/
  | linkedTo
  deriving DecidableEq, Repr

/-- The attributes of a file. -/
structure FileEas where
  /-- Their values. -/
  ea : EaName → Option Bytes
  /-- The file has no attributes at all. -/
  bare : Bool
  /-- An attempt to open the file and write the attribute succeeds. -/
  writable : EaName → Bool

namespace FileEas

/-- `eahReadStringEA` with a buffer of `LX_MAXPATH` bytes.  It succeeds with an empty string if
there are no attributes at all, and fails if there is no value, or one that does not fit. -/
def readStringEA (f : FileEas) (name : EaName) : Option Bytes :=
  match f.ea name with
  | some v =>
    if v ≠ [] ∧ v.length + 1 ≤ lxMaxpath then some (v ++ List.replicate (lxMaxpath - v.length) 0)
    else none
  | none => if f.bare then some (List.replicate lxMaxpath 0) else none

/-- `eahWriteStringEA_F`; an empty value deletes the attribute. -/
def writeStringEA (f : FileEas) (name : EaName) (eaval : Bytes) : FileEas :=
  if f.writable name then
    { f with
      ea := Function.update f.ea name (if str eaval = [] then none else some (str eaval))
      bare := f.bare && (str eaval).isEmpty }
  else f

end FileEas

/-- `atoi`, for strings that do not begin with a blank or a sign. -/
def atoi (eaval : Bytes) : ℕ :=
  ((str eaval).takeWhile fun c => 48 ≤ c && c ≤ 57).foldl (fun n c => 10 * n + (c.toNat - 48)) 0

/-- The correction of a value: the new contents of the buffer, if it has to be written. -/
def correctValue (newdir olddir eaval : Bytes) : Option Bytes :=
  if strncmp eaval olddir (strlen olddir) = 0 then
    let tmp := strncpy [] (eaval.drop (strlen olddir)) lxMaxpath
    let eaval := strncpy eaval newdir (lxMaxpath - strlen tmp)
    some (strcat eaval tmp)
  else none

/-- The correction of an attribute. -/
def correctEa (newdir olddir : Bytes) (f : FileEas) (name : EaName) : FileEas :=
  match f.readStringEA name with
  | none => f
  | some eaval =>
    match correctValue newdir olddir eaval with
    | none => f
    | some v => f.writeStringEA name v

/-- The loop `while(i)` over `LX_LB_i`. -/
def correctLinkedBy (newdir olddir : Bytes) : ℕ → FileEas → FileEas
  | 0, f => f
  | i + 1, f => correctLinkedBy newdir olddir i (correctEa newdir olddir f (.linkedBy (i + 1)))

/-- `lxafs_correct_linkinfo` for the file `f`, which the source finds by its new name. -/
def lxafsCorrectLinkinfo (newdir olddir : Bytes) (f : FileEas) : FileEas :=
  let f :=
    match f.readStringEA .linkByCount with
    | none => f
    | some eaval => correctLinkedBy newdir olddir (atoi eaval) f
  correctEa newdir olddir f .linkedTo

/-- The contents of a directory, in the order in which `DosFindFirst` and `DosFindNext` return
them. -/
inductive Tree
  /-- No more entries. -/
  | nil
  /-- A file. -/
  | file (name : Bytes) (f : FileEas) (next : Tree)
  /-- A directory with its own attributes and contents. -/
  | dir (name : Bytes) (f : FileEas) (sub next : Tree)

/-- The strings `"."` and `".."`. -/
def dotName : Bytes := [46]

@[inherit_doc dotName]
def dotDotName : Bytes := [46, 46]

/-- The path of an entry, as the loop builds it in a buffer. -/
def entryPath (dirname name : Bytes) : Bytes :=
  strcat (strcat (strncpy [] dirname lxMaxpath) [slash]) name

/-- `lxafs_linkinfo_correction` -/
def lxafsLinkinfoCorrection (newname oldname : Bytes) : Tree → Tree
  | .nil => .nil
  | .file name f next =>
    .file name
      (if strcmp name dotDotName ≠ 0 ∧ strcmp name dotName ≠ 0 then
        lxafsCorrectLinkinfo newname oldname f
      else f)
      (lxafsLinkinfoCorrection newname oldname next)
  | .dir name f sub next =>
    if strcmp name dotDotName ≠ 0 ∧ strcmp name dotName ≠ 0 then
      .dir name (lxafsCorrectLinkinfo newname oldname f)
        (lxafsLinkinfoCorrection (entryPath newname name) (entryPath oldname name) sub)
        (lxafsLinkinfoCorrection newname oldname next)
    else .dir name f sub (lxafsLinkinfoCorrection newname oldname next)

/-- `CMD_LXAFS_Rename`: the result and the contents of the moved directory.  `move` and `query`
are the results of `DosMove` and `DosQueryPathInfo`, `isDir` says whether a directory was
moved. -/
def cmdLxafsRename (move query : ULONG) (isDir : Bool) (name1 name2 : Bytes) (t : Tree) :
    ULONG × Tree :=
  if move ≠ 0 then (move, t)
  else if query ≠ 0 then (query, t)
  else if isDir then (0, lxafsLinkinfoCorrection name2 name1 t)
  else (0, t)

/-! ### What the correction is for -/

/-- The links that the file has by its count: `LX_LB_1` to `LX_LB_n`, and `LX_LT`. -/
def FileEas.linkByCount (f : FileEas) : ℕ :=
  match f.readStringEA .linkByCount with
  | none => 0
  | some eaval => atoi eaval

/-- The attribute names a file that the given one is linked to, or by. -/
def FileEas.IsLink (f : FileEas) (name : EaName) : Prop :=
  name = .linkedTo ∨ ∃ i, 1 ≤ i ∧ i ≤ f.linkByCount ∧ name = .linkedBy i

/-- A path below `old` is moved to `new`, and any other is left alone. -/
def moved (old new v : Bytes) : Bytes := if old ++ [slash] <+: v then rebase old new v else v

/-- The links of a file before and after the rename of `old`. -/
def FileCorrected (old new : Bytes) (f f' : FileEas) : Prop :=
  ∀ name, f.IsLink name → f'.ea name = (f.ea name).map (moved old new)

/-- The tree before and after the rename: the entries are the same, and the links of every file
are corrected. -/
def Corrected (old new : Bytes) : Tree → Tree → Prop
  | .nil, .nil => True
  | .file name f next, .file name' f' next' =>
    name = name' ∧ FileCorrected old new f f' ∧ Corrected old new next next'
  | .dir name _ sub next, .dir name' _ sub' next' =>
    name = name' ∧ Corrected old new sub sub' ∧ Corrected old new next next'
  | _, _ => False

/-- The links of a file in the directory `dir` that start with its path are the ones that are
below the renamed directory `old`, and they can be written. -/
def FileLocal (old dir : Bytes) (f : FileEas) : Prop :=
  ∀ name v, f.IsLink name → f.ea name = some v →
    (dir <+: v ∧ f.writable name ↔ old ++ [slash] <+: v)

/-- This for every file of a tree, the contents of the directory `dir`. -/
def LinksLocal (old : Bytes) : Bytes → Tree → Prop
  | _, .nil => True
  | dir, .file _ f next => FileLocal old dir f ∧ LinksLocal old dir next
  | dir, .dir name _ sub next =>
    LinksLocal old (dir ++ slash :: name) sub ∧ LinksLocal old dir next

/-- A value is a string that fits a buffer, before the exchange of `old` for `new` and after it. -/
structure ValueFits (old new v : Bytes) : Prop where
  noNul : NoNul v
  ne_nil : v ≠ []
  lt : v.length < lxMaxpath
  rebase_lt : old <+: v → (rebase old new v).length < lxMaxpath

/-- The links of a file fit. -/
def FileEas.Fits (old new : Bytes) (f : FileEas) : Prop :=
  ∀ name v, f.IsLink name → f.ea name = some v → ValueFits old new v

/-- The path of the entry `name` of `old ++ s` has room for `n` more bytes, before the rename and
after it. -/
def EntryFits (old new s name : Bytes) (n : ℕ) : Prop :=
  (old ++ s ++ slash :: name).length + n < lxMaxpath ∧
    (new ++ s ++ slash :: name).length + n < lxMaxpath

/-- The paths of the entries of `old ++ s` fit their buffers, those of a directory with a `"/*"`
behind them.  `"."` and `".."` are directories, and have nothing in them here. -/
def Tree.Fits (old new : Bytes) : Bytes → Tree → Prop
  | _, .nil => True
  | s, .file name f next =>
    NoNul name ∧ name ≠ dotDotName ∧ name ≠ dotName ∧ EntryFits old new s name 0 ∧
      f.Fits old new ∧ next.Fits old new s
  | s, .dir name _ sub next =>
    NoNul name ∧
      (if name ≠ dotDotName ∧ name ≠ dotName then
        EntryFits old new s name 3 ∧ sub.Fits old new (s ++ slash :: name)
      else sub = .nil) ∧ next.Fits old new s

/-- The two names of the rename and the contents of the directory fit the buffers. -/
structure RenameFits (old new : Bytes) (t : Tree) : Prop where
  old_ne : old ≠ []
  new_ne : new ≠ []
  old_lt : old.length + 3 < lxMaxpath
  new_lt : new.length + 3 < lxMaxpath
  tree : t.Fits old new []

/-! ### One value -/

theorem correctValue_of_not_isPrefix {newdir olddir eaval : Bytes}
    (h : ¬ str olddir <+: str eaval) : correctValue newdir olddir eaval = none :=
  if_neg fun h' => h ((strncmp_strlen ..).1 h')

/-- A value with the old directory in front gets the new one there. -/
theorem str_correctValue {newdir olddir eaval : Bytes} (h : str olddir <+: str eaval)
    (hlt : strlen eaval < lxMaxpath)
    (hfit : (rebase (str olddir) (str newdir) (str eaval)).length < lxMaxpath) :
    ∃ b, correctValue newdir olddir eaval = some b ∧
      str b = rebase (str olddir) (str newdir) (str eaval) := by
  refine ⟨_, if_pos ((strncmp_strlen ..).2 h), ?_⟩
  have htmp := str_strncpy_drop h hlt
  rw [rebase, List.length_append] at hfit
  have hnew : strlen newdir < lxMaxpath -
      strlen (strncpy [] (eaval.drop (strlen olddir)) lxMaxpath) := by
    rw [strlen, strlen, htmp, strlen]
    omega
  rw [str_strcat, str_strncpy hnew, htmp]
  rfl

/-! ### One attribute -/

section Attribute

variable {newdir olddir : Bytes} {f : FileEas} {name : EaName} {v : Bytes}

/-- A value that fits the buffer is read. -/
theorem readStringEA_of_some (hv : f.ea name = some v) (hne : v ≠ [])
    (hlt : v.length < lxMaxpath) :
    f.readStringEA name = some (v ++ List.replicate (lxMaxpath - v.length) 0) := by
  rw [FileEas.readStringEA, hv]
  exact if_pos ⟨hne, hlt⟩

/-- The string in the buffer is the value. -/
theorem str_append_replicate (hnul : NoNul v) (hlt : v.length < lxMaxpath) :
    str (v ++ List.replicate (lxMaxpath - v.length) 0) = v := by
  obtain ⟨k, hk⟩ : ∃ k, lxMaxpath - v.length = k + 1 := ⟨lxMaxpath - v.length - 1, by omega⟩
  rw [hk, List.replicate_succ, str_append_zero hnul]

/-- Without a value nothing is written. -/
theorem correctEa_of_none (hold : str olddir ≠ []) (hv : f.ea name = none) :
    correctEa newdir olddir f name = f := by
  have hempty : correctValue newdir olddir (List.replicate lxMaxpath 0) = none :=
    correctValue_of_not_isPrefix fun h => hold (List.prefix_nil.1 h)
  rw [correctEa, FileEas.readStringEA, hv]
  cases f.bare with
  | false => rfl
  | true => simp only [↓reduceIte, hempty]

/-- The value after its correction. -/
def FileEas.corrected (f : FileEas) (old new : Bytes) (name : EaName) (v : Bytes) : Bytes :=
  if old <+: v ∧ f.writable name then rebase old new v else v

theorem corrected_congr {f' : FileEas} (h : f'.writable = f.writable) :
    f'.corrected = f.corrected := by
  funext old new name v
  simp only [FileEas.corrected, h]

theorem ea_writeStringEA_of_ne {name' : EaName} (h : name' ≠ name) :
    (f.writeStringEA name v).ea name' = f.ea name' := by
  unfold FileEas.writeStringEA
  split_ifs <;> simp [h]

@[simp] theorem writable_writeStringEA : (f.writeStringEA name v).writable = f.writable := by
  unfold FileEas.writeStringEA
  split_ifs <;> rfl

/-- The correction writes the attribute or does nothing. -/
theorem correctEa_eq (newdir olddir : Bytes) (f : FileEas) (name : EaName) :
    correctEa newdir olddir f name = f ∨
      ∃ v, correctEa newdir olddir f name = f.writeStringEA name v := by
  unfold correctEa
  split
  · exact .inl rfl
  · split
    · exact .inl rfl
    · exact .inr ⟨_, rfl⟩

theorem ea_correctEa_of_ne {name' : EaName} (h : name' ≠ name) :
    (correctEa newdir olddir f name).ea name' = f.ea name' := by
  obtain heq | ⟨v, heq⟩ := correctEa_eq newdir olddir f name
  · rw [heq]
  · rw [heq, ea_writeStringEA_of_ne h]

@[simp] theorem writable_correctEa : (correctEa newdir olddir f name).writable = f.writable := by
  obtain heq | ⟨v, heq⟩ := correctEa_eq newdir olddir f name
  · rw [heq]
  · rw [heq, writable_writeStringEA]

theorem ea_correctEa (hold : str olddir ≠ []) (hnew : str newdir ≠ [])
    (hfit : ∀ v, f.ea name = some v → ValueFits (str olddir) (str newdir) v) :
    (correctEa newdir olddir f name).ea name =
      (f.ea name).map (f.corrected (str olddir) (str newdir) name) := by
  cases hv : f.ea name with
  | none => rw [correctEa_of_none hold hv, hv, Option.map_none]
  | some v =>
    obtain ⟨hnul, hne, hlt, hreb⟩ := hfit v hv
    generalize hbuf : v ++ List.replicate (lxMaxpath - v.length) 0 = eaval
    have hstr : str eaval = v := hbuf ▸ str_append_replicate hnul hlt
    have hread : f.readStringEA name = some eaval := hbuf ▸ readStringEA_of_some hv hne hlt
    subst hstr
    rw [Option.map_some, FileEas.corrected]
    by_cases hpre : str olddir <+: str eaval
    · obtain ⟨b, hb, hbstr⟩ := str_correctValue hpre hlt (hreb hpre)
      have hbne : str b ≠ [] := by
        rw [hbstr, rebase]
        exact List.append_ne_nil_of_left_ne_nil hnew _
      simp only [correctEa, hread, hb, FileEas.writeStringEA, hpre, true_and]
      split_ifs
      · simp only [Function.update_self, hbstr]
      · exact hv
    · have hkeep : correctValue newdir olddir eaval = none := correctValue_of_not_isPrefix hpre
      simp only [correctEa, hread, hkeep, hpre, false_and, ↓reduceIte, hv]

end Attribute

/-! ### One file -/

section File

variable {newdir olddir : Bytes} {f : FileEas} {name : EaName} {n : ℕ}

@[simp] theorem writable_correctLinkedBy :
    (correctLinkedBy newdir olddir n f).writable = f.writable := by
  induction n generalizing f with
  | zero => rfl
  | succ n ih => rw [correctLinkedBy, ih, writable_correctEa]

theorem ea_correctLinkedBy_of_ne (h : ∀ i, 1 ≤ i → i ≤ n → name ≠ .linkedBy i) :
    (correctLinkedBy newdir olddir n f).ea name = f.ea name := by
  induction n generalizing f with
  | zero => rfl
  | succ n ih =>
    rw [correctLinkedBy, ih fun i h1 hi => h i h1 (Nat.le_succ_of_le hi)]
    exact ea_correctEa_of_ne (h (n + 1) (Nat.succ_pos n) le_rfl)

/-- The loop corrects each of its links once. -/
theorem ea_correctLinkedBy {i : ℕ} (hold : str olddir ≠ []) (hnew : str newdir ≠ [])
    (hfit : ∀ v, f.ea (.linkedBy i) = some v → ValueFits (str olddir) (str newdir) v)
    (h1 : 1 ≤ i) (hi : i ≤ n) :
    (correctLinkedBy newdir olddir n f).ea (.linkedBy i) =
      (f.ea (.linkedBy i)).map (f.corrected (str olddir) (str newdir) (.linkedBy i)) := by
  induction n generalizing f with
  | zero => omega
  | succ n ih =>
    rw [correctLinkedBy]
    by_cases hn : i = n + 1
    · -- this round corrects it, and the later ones leave it alone
      subst hn
      rw [ea_correctLinkedBy_of_ne, ea_correctEa hold hnew hfit]
      rintro j - hj heq
      rw [EaName.linkedBy.injEq] at heq
      omega
    · have hframe : (correctEa newdir olddir f (.linkedBy (n + 1))).ea (.linkedBy i) =
          f.ea (.linkedBy i) := ea_correctEa_of_ne (by simpa using hn)
      rw [ih (hframe.symm ▸ hfit) (by omega), hframe, corrected_congr writable_correctEa]

theorem lxafsCorrectLinkinfo_eq (newdir olddir : Bytes) (f : FileEas) :
    lxafsCorrectLinkinfo newdir olddir f =
      correctEa newdir olddir (correctLinkedBy newdir olddir f.linkByCount f) .linkedTo := by
  unfold lxafsCorrectLinkinfo FileEas.linkByCount
  split <;> rfl

/-- No other attribute is written. -/
theorem ea_lxafsCorrectLinkinfo_of_not_isLink (h : ¬ f.IsLink name) :
    (lxafsCorrectLinkinfo newdir olddir f).ea name = f.ea name := by
  rw [lxafsCorrectLinkinfo_eq, ea_correctEa_of_ne fun heq => h (.inl heq)]
  exact ea_correctLinkedBy_of_ne fun i h1 hi heq => h (.inr ⟨i, h1, hi, heq⟩)

/-- **The links of a file after the correction.** -/
theorem ea_lxafsCorrectLinkinfo (hold : str olddir ≠ []) (hnew : str newdir ≠ [])
    (hfit : f.Fits (str olddir) (str newdir)) (hname : f.IsLink name) :
    (lxafsCorrectLinkinfo newdir olddir f).ea name =
      (f.ea name).map (f.corrected (str olddir) (str newdir) name) := by
  rw [lxafsCorrectLinkinfo_eq]
  obtain rfl | ⟨i, h1, hi, rfl⟩ := id hname
  · have hframe : (correctLinkedBy newdir olddir f.linkByCount f).ea .linkedTo = f.ea .linkedTo :=
      ea_correctLinkedBy_of_ne fun i _ _ => nofun
    rw [ea_correctEa hold hnew (hframe.symm ▸ fun v => hfit _ v hname), hframe,
      corrected_congr writable_correctLinkedBy]
  · have hne : EaName.linkedBy i ≠ .linkedTo := nofun
    rw [ea_correctEa_of_ne hne, ea_correctLinkedBy hold hnew (fun v => hfit _ v hname) h1 hi]

end File

section Moved

variable {old new s v : Bytes}

/-- The exchange in a directory of the moved tree is that of the moved directory. -/
theorem rebase_append_append (h : old ++ s <+: v) :
    rebase (old ++ s) (new ++ s) v = rebase old new v := by
  obtain ⟨r, rfl⟩ := h
  rw [rebase_append, List.append_assoc, List.append_assoc, rebase_append]

theorem ValueFits.append (h : ValueFits old new v) (s : Bytes) :
    ValueFits (old ++ s) (new ++ s) v :=
  { h with
    rebase_lt := fun hpre => by
      rw [rebase_append_append hpre]
      exact h.rebase_lt ((List.prefix_append ..).trans hpre) }

/-- The exchange of a value below the directory `old ++ s`, or of none, is the one that is meant
exactly if the value is below `old`, or not. -/
theorem corrected_eq_moved_iff {f : FileEas} {name : EaName} :
    f.corrected (old ++ s) (new ++ s) name v = moved old new v ↔
      new = old ∨ (old ++ s <+: v ∧ f.writable name ↔ old ++ [slash] <+: v) := by
  have hself : ∀ t, old ++ t <+: v → (rebase old new v = v ↔ new = old) := fun t h =>
    rebase_eq_self_iff ((List.prefix_append ..).trans h)
  unfold FileEas.corrected moved
  by_cases hb : old ++ s <+: v ∧ f.writable name <;> by_cases hp : old ++ [slash] <+: v
  · rw [if_pos hb, if_pos hp, rebase_append_append hb.1]
    exact iff_of_true rfl (.inr (iff_of_true hb hp))
  · rw [if_pos hb, if_neg hp, rebase_append_append hb.1, hself s hb.1]
    exact (or_iff_left fun h => hp (h.1 hb)).symm
  · rw [if_neg hb, if_pos hp, eq_comm, hself _ hp]
    exact (or_iff_left fun h => hb (h.2 hp)).symm
  · rw [if_neg hb, if_neg hp]
    exact iff_of_true rfl (.inr (iff_of_false hb hp))

end Moved

/-- The links of a file of the directory `old ++ s` come out right exactly if they are local. -/
theorem fileCorrected_iff {newdir olddir old new s : Bytes} {f : FileEas}
    (hod : str olddir = old ++ s) (hnd : str newdir = new ++ s) (hold : old ≠ []) (hnew : new ≠ [])
    (hfit : f.Fits old new) :
    FileCorrected old new f (lxafsCorrectLinkinfo newdir olddir f) ↔
      new = old ∨ FileLocal old (old ++ s) f := by
  have hfit' : f.Fits (str olddir) (str newdir) := by
    rw [hod, hnd]
    exact fun name v hl hv => (hfit name v hl hv).append s
  have hea : ∀ name, f.IsLink name → (lxafsCorrectLinkinfo newdir olddir f).ea name =
      (f.ea name).map (f.corrected (old ++ s) (new ++ s) name) := fun name hl => by
    rw [← hod, ← hnd]
    refine ea_lxafsCorrectLinkinfo ?_ ?_ hfit' hl
    · rw [hod]
      exact List.append_ne_nil_of_left_ne_nil hold s
    · rw [hnd]
      exact List.append_ne_nil_of_left_ne_nil hnew s
  have hname : FileCorrected old new f (lxafsCorrectLinkinfo newdir olddir f) ↔
      ∀ name v, f.IsLink name → f.ea name = some v →
        new = old ∨ (old ++ s <+: v ∧ f.writable name ↔ old ++ [slash] <+: v) := by
    apply forall_congr'
    intro name
    constructor
    · intro h v hl hv
      have := h hl
      rw [hea name hl, hv, Option.map_some, Option.map_some, Option.some.injEq] at this
      exact corrected_eq_moved_iff.1 this
    · intro h hl
      rw [hea name hl]
      cases hv : f.ea name with
      | none => rfl
      | some v => rw [Option.map_some, Option.map_some, corrected_eq_moved_iff.2 (h v hl hv)]
  rw [hname]
  constructor
  · intro h
    by_cases heq : new = old
    · exact .inl heq
    · exact .inr fun name v hl hv => (h name v hl hv).resolve_left heq
  · intro h name v hl hv
    exact h.imp_right fun h => h name v hl hv

/-! ### The tree -/

theorem str_entryPath {dirname name : Bytes} (h : strlen dirname < lxMaxpath) (hname : NoNul name) :
    str (entryPath dirname name) = str dirname ++ slash :: name := by
  have hslash : str [slash] = [slash] := by decide
  rw [entryPath, str_strcat, str_strcat, str_strncpy h, hslash, hname.str_eq, List.append_assoc]
  rfl

/-- The test for `"."` and `".."`. -/
theorem strcmp_dot_iff {name : Bytes} (hname : NoNul name) :
    strcmp name dotDotName ≠ 0 ∧ strcmp name dotName ≠ 0 ↔ name ≠ dotDotName ∧ name ≠ dotName := by
  have hdd : str dotDotName = dotDotName := by decide
  have hd : str dotName = dotName := by decide
  rw [ne_eq, ne_eq, strcmp_eq_zero_iff, strcmp_eq_zero_iff, hname.str_eq, hdd, hd]

/-- The correction of a tree comes out right exactly if its links are local.  This is by induction
on the tree, and `s` is the path from the moved directory to this one. -/
theorem corrected_iff {old new : Bytes} (hold : old ≠ []) (hnew : new ≠ []) {t : Tree}
    {s newname oldname : Bytes} (hod : str oldname = old ++ s) (hnd : str newname = new ++ s)
    (hol : strlen oldname < lxMaxpath) (hnl : strlen newname < lxMaxpath)
    (hfit : t.Fits old new s) :
    Corrected old new t (lxafsLinkinfoCorrection newname oldname t) ↔
      new = old ∨ LinksLocal old (old ++ s) t := by
  induction t generalizing s newname oldname with
  | nil => exact iff_of_true trivial (.inr trivial)
  | file name f next ih =>
    obtain ⟨hnul, hdd, hd, -, hf, hnext⟩ := hfit
    rw [lxafsLinkinfoCorrection, if_pos ((strcmp_dot_iff hnul).2 ⟨hdd, hd⟩), Corrected, LinksLocal,
      or_and_left, fileCorrected_iff hod hnd hold hnew hf, ih hod hnd hol hnl hnext]
    exact and_iff_right rfl
  | dir name f sub next ihsub ihnext =>
    obtain ⟨hnul, hsub, hnext⟩ := hfit
    rw [lxafsLinkinfoCorrection, LinksLocal, or_and_left, ← ihnext hod hnd hol hnl hnext]
    by_cases hdot : name ≠ dotDotName ∧ name ≠ dotName
    · rw [if_pos hdot] at hsub
      -- the subdirectory: both names grow by the same string
      obtain ⟨⟨hol', hnl'⟩, hsub⟩ := hsub
      have hod' : str (entryPath oldname name) = old ++ (s ++ slash :: name) := by
        rw [str_entryPath hol hnul, hod, List.append_assoc]
      have hnd' : str (entryPath newname name) = new ++ (s ++ slash :: name) := by
        rw [str_entryPath hnl hnul, hnd, List.append_assoc]
      have hrec := ihsub hod' hnd' (by rw [strlen, hod', ← List.append_assoc]; omega)
        (by rw [strlen, hnd', ← List.append_assoc]; omega) hsub
      rw [if_pos ((strcmp_dot_iff hnul).2 hdot), Corrected, hrec, List.append_assoc]
      exact and_iff_right rfl
    · -- `"."` or `".."`
      rw [if_neg hdot] at hsub
      subst hsub
      rw [if_neg fun h => hdot ((strcmp_dot_iff hnul).1 h), Corrected]
      simp only [Corrected, LinksLocal, true_and, or_true]

/-- **A rename of a directory corrects the links in it exactly if they are local.** -/
theorem cmdLxafsRename_corrected_iff {move query : ULONG} {name1 name2 : Bytes} {t : Tree}
    (hrc : (cmdLxafsRename move query true name1 name2 t).1 = 0)
    (hfit : RenameFits (str name1) (str name2) t) :
    Corrected (str name1) (str name2) t (cmdLxafsRename move query true name1 name2 t).2 ↔
      str name2 = str name1 ∨ LinksLocal (str name1) (str name1) t := by
  have hmove : move = 0 := by
    by_contra h
    rw [cmdLxafsRename, if_pos h] at hrc
    exact h hrc
  have hquery : query = 0 := by
    by_contra h
    rw [cmdLxafsRename, if_neg (not_not_intro hmove), if_pos h] at hrc
    exact h hrc
  have hres : (cmdLxafsRename move query true name1 name2 t).2 =
      lxafsLinkinfoCorrection name2 name1 t := by
    rw [cmdLxafsRename, if_neg (not_not_intro hmove), if_neg (not_not_intro hquery), if_pos rfl]
  have hol : strlen name1 < lxMaxpath := (Nat.le_add_right ..).trans_lt hfit.old_lt
  have hnl : strlen name2 < lxMaxpath := (Nat.le_add_right ..).trans_lt hfit.new_lt
  have := corrected_iff hfit.old_ne hfit.new_ne (List.append_nil _).symm (List.append_nil _).symm
    hol hnl hfit.tree
  rw [hres, this, List.append_nil]

/-- A file that is a link to `v`. -/
def linkTo (v : Bytes) : FileEas where
  ea name := if name = .linkedTo then some v else none
  bare := false
  writable _ := true

theorem linkTo_ea_eq_some {v w : Bytes} {name : EaName} (h : (linkTo v).ea name = some w) :
    w = v := by
  simp only [linkTo] at h
  split_ifs at h
  exact (Option.some.inj h).symm

/-- The contents of a directory with a subdirectory `s`, in which the file `f` is a link to `v`. -/
def treeWith (v : Bytes) : Tree :=
  .dir [115] ⟨fun _ => none, true, fun _ => true⟩ (.file [102] (linkTo v) .nil) .nil

/-- The links of `treeWith v` after the rename of the directory `C:/d` to `C:/e`. -/
def renamedTree (v : Bytes) : Tree :=
  (cmdLxafsRename 0 0 true dirName (rootName ++ [slash, 101]) (treeWith v)).2

/-- The link of `C:/d/s/f` to `C:/d/h` is not corrected: it does not start with `C:/d/s`. -/
theorem not_corrected_crossLink :
    ¬ Corrected dirName (rootName ++ [slash, 101]) (treeWith (dirName ++ [slash, 104]))
      (renamedTree (dirName ++ [slash, 104])) := by
  rintro ⟨-, ⟨-, h, -⟩, -⟩
  have := h .linkedTo (.inl rfl)
  revert this
  decide +kernel

/-- `cmdLxafsRename_corrected_iff` for a link of `C:/d/s/f` to `C:/d/s/h`. -/
theorem corrected_localLink :
    Corrected (str dirName) (str (rootName ++ [slash, 101]))
      (treeWith (dirName ++ [slash, 115, slash, 104]))
      (renamedTree (dirName ++ [slash, 115, slash, 104])) := by
  have hrc : (cmdLxafsRename 0 0 true dirName (rootName ++ [slash, 101])
      (treeWith (dirName ++ [slash, 115, slash, 104]))).1 = 0 := rfl
  have hold : (str dirName).length + 3 < lxMaxpath := by decide +kernel
  have hnew : (str (rootName ++ [slash, 101])).length + 3 < lxMaxpath := by decide +kernel
  have hsub : EntryFits (str dirName) (str (rootName ++ [slash, 101])) [] [115] 3 :=
    ⟨by decide +kernel, by decide +kernel⟩
  have hfile : EntryFits (str dirName) (str (rootName ++ [slash, 101])) [slash, 115] [102] 0 :=
    ⟨by decide +kernel, by decide +kernel⟩
  have hlink : ValueFits (str dirName) (str (rootName ++ [slash, 101]))
      (dirName ++ [slash, 115, slash, 104]) :=
    ⟨by decide, by decide, by decide +kernel, by decide +kernel⟩
  have hfit : RenameFits (str dirName) (str (rootName ++ [slash, 101]))
      (treeWith (dirName ++ [slash, 115, slash, 104])) := by
    refine ⟨by decide, by decide, hold, hnew, by decide, ⟨hsub, ?_⟩, trivial⟩
    refine ⟨by decide, by decide, by decide, hfile, fun name v _ hv => ?_, trivial⟩
    obtain rfl := linkTo_ea_eq_some hv
    exact hlink
  refine (cmdLxafsRename_corrected_iff hrc hfit).2 (.inr ⟨⟨?_, trivial⟩, trivial⟩)
  intro name v _ hv
  obtain rfl := linkTo_ea_eq_some hv
  exact iff_of_true ⟨by decide, rfl⟩ (by decide)

/-- A rename that fails corrects nothing. -/
theorem cmdLxafsRename_of_err {move query : ULONG} {isDir : Bool} {name1 name2 : Bytes} {t : Tree}
    (h : (cmdLxafsRename move query isDir name1 name2 t).1 ≠ 0) :
    (cmdLxafsRename move query isDir name1 name2 t).2 = t := by
  unfold cmdLxafsRename at h ⊢
  split_ifs at h ⊢ <;> first | rfl | exact absurd rfl h

end LxApi32
