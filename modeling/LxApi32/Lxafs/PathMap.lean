import LxApi32.Lib.Join
import LxApi32.Lxafs.NameBuffers

/-!
# OS/2 paths and Linux paths

`LX_os2path_to_lx` looks for a mounted file system whose root is at the front of an OS/2 path, and
puts what follows the root and the next character behind the path of the mount point.  It looks
neither at this character, which may not be a separator, nor at the end of the mount point's path,
which has one for `/` only.

* `strnicmp_eq_zero_iff` : what `strnicmp` finds equal.
* `osPathToLx_eq` : what is found, if the buffers have room.
* `translates_iff` : a path is translated as it should be exactly if no root is at its front, or the
  first one that is covers it and meets the rest with one separator.
-/

namespace LxApi32

open CString

/-- The character `\`. -/
def backslash : UInt8 := 92

/-- `isupper` -/
def isupper (c : UInt8) : Bool := (65 ≤ c && c ≤ 90) || (192 ≤ c && c ≤ 222 && c != 215)

/-- `tolower` -/
def tolower (c : UInt8) : UInt8 := if isupper c then c + 32 else c

/-- `strnicmp` -/
def strnicmp : Bytes → Bytes → ℕ → ℤ
  | _, _, 0 => 0
  | a, b, n + 1 =>
    let c1 := a.headD 0
    let c2 := b.headD 0
    if c1 = 0 ∨ c2 = 0 then c1.toNat - c2.toNat
    else if c1 = c2 then strnicmp a.tail b.tail n
    else if tolower c1 ≠ tolower c2 then (tolower c1).toNat - (tolower c2).toNat
    else strnicmp a.tail b.tail n

/-- What `LX_os2path_to_lx` reads of a super block in `lxafs_sblist`. -/
structure Mount where
  /-- `rootpath` -/
  rootpath : PathName
  /-- `xrootpath` -/
  xrootpath : PathName
  deriving DecidableEq

/-- `/` in the place of `\`. -/
def toSlashes (path : Bytes) : Bytes := path.map fun c => if c = backslash then slash else c

/-- `\` in the place of `/`. -/
def toBackslashes (path : Bytes) : Bytes := path.map fun c => if c = slash then backslash else c

/-- `opath` -/
def opath (path : PathName) : Bytes := strncpy [] (toSlashes path.chars) lxMaxpath

/-- `LX_os2path_to_lx`: what it returns, and `lxpath` if it has written that.  There is no result if
it reads behind the end of `opath`. -/
def osPathToLx (mounts : List Mount) (path : PathName) : Option (ℤ × Option Bytes) :=
  match mounts.find? fun sbi =>
      strnicmp sbi.rootpath.chars (opath path) (strlen sbi.rootpath.chars) = 0 with
  | none => some (-errENOENT, none)
  | some sbi =>
    if lxMaxpath ≤ strlen sbi.rootpath.chars + 1 then none
    else
      let lxpath := strncpy [] sbi.xrootpath.chars lxMaxpath
      some (0, some (strncat lxpath ((opath path).drop (strlen sbi.rootpath.chars + 1))
        (lxMaxpath - strlen lxpath)))

/-- `LX_os2path_from_file` for a file of lxafs with `linkinfo.name`. -/
def osPathFromFile (name : PathName) (buflen : ℕ) : Bytes :=
  toBackslashes ((strncpy [] name.chars lxMaxpath).take buflen)

/-! ### What the translation is for -/

/-- A letter in lower case, if it is one of ASCII. -/
def asciiLower (c : UInt8) : UInt8 := if 65 ≤ c ∧ c ≤ 90 then c + 32 else c

namespace Mount

/-- The path is the root of the file system, or continues it with a `/`. -/
def Covers (r : Mount) (p : Bytes) : Prop :=
  (p.take r.rootpath.chars.length).map asciiLower = r.rootpath.chars.map asciiLower ∧
    (p.length = r.rootpath.chars.length ∨ p[r.rootpath.chars.length]? = some slash)

/-- What follows the root and a separator. -/
def rest (r : Mount) (p : Bytes) : Bytes := p.drop (r.rootpath.chars.length + 1)

/-- The path below the mount point. -/
def lxPath (r : Mount) (p : Bytes) : Bytes := Join.join slash r.xrootpath.chars (r.rest p)

end Mount

namespace PathMap

/-- 0 is returned for the paths that a root covers, and then its mount point and the rest of the
path are joined by one `/` in `lxpath`. -/
def Translates (mounts : List Mount) (path : PathName) : Prop :=
  ∃ r, osPathToLx mounts path = some r ∧
    (r.1 = 0 ↔ ∃ m ∈ mounts, m.Covers (toSlashes path.chars)) ∧
    (r.1 = 0 → ∃ m ∈ mounts, m.Covers (toSlashes path.chars) ∧
      ∃ lxpath, r.2 = some lxpath ∧ InBuffer lxpath ∧ str lxpath = m.lxPath (toSlashes path.chars))

/-- The root is at the front of the path for `strnicmp`. -/
def AtFront (m : Mount) (p : Bytes) : Prop :=
  (p.take m.rootpath.chars.length).map tolower = m.rootpath.chars.map tolower

instance (m : Mount) : DecidablePred (AtFront m) := fun p =>
  inferInstanceAs (Decidable ((p.take m.rootpath.chars.length).map tolower =
    m.rootpath.chars.map tolower))

/-- The root covers the path, and the path of its mount point and the rest meet with one `/`. -/
def Clean (m : Mount) (p : Bytes) : Prop :=
  m.Covers p ∧ (m.rest p = [] ∨ (m.rest p).dropWhile (· = slash) ≠ [] ∧
    Join.separators slash m.xrootpath.chars (m.rest p) = 1)

/-- No root is at the front of the path; or the first one that is leaves room, and is clean, unless
the path of some other mount that covers the path is by chance what it is replaced by. -/
def Found (mounts : List Mount) (p : Bytes) : Prop :=
  ∀ m, mounts.find? (AtFront · p) = some m →
    m.rootpath.chars.length + 1 < lxMaxpath ∧
    m.xrootpath.chars.length + (m.rest p).length < lxMaxpath ∧
    (Clean m p ∨ ∃ m' ∈ mounts, m'.Covers p ∧ m.xrootpath.chars ++ m.rest p = m'.lxPath p)

/-! ### Comparing without regard to case -/

theorem tolower_asciiLower (c : UInt8) : tolower (asciiLower c) = tolower c := by
  have hall : ∀ n : Fin 256, tolower (asciiLower (UInt8.ofNat n)) = tolower (UInt8.ofNat n) := by
    decide +kernel
  simpa using hall ⟨c.toNat, c.toNat_lt⟩

theorem strnicmp_eq_zero_iff (a b : Bytes) (n : ℕ) :
    strnicmp a b n = 0 ↔ ((str a).take n).map tolower = ((str b).take n).map tolower := by
  induction n generalizing a b with
  | zero => simp [strnicmp]
  | succ n ih =>
    have hnat : ∀ x y : UInt8, (x.toNat : ℤ) - y.toNat = 0 ↔ x = y := fun x y => by
      rw [sub_eq_zero, Nat.cast_inj, UInt8.toNat_inj]
    rw [strnicmp, str_eq_head a, str_eq_head b]
    by_cases ha : a.headD 0 = 0
    · rw [if_pos (.inl ha), if_pos ha, hnat, ha]
      by_cases hb : b.headD 0 = 0
      · exact iff_of_true hb.symm (by rw [if_pos hb])
      · rw [if_neg hb]
        exact iff_of_false (Ne.symm hb) (by simp)
    · by_cases hb : b.headD 0 = 0
      · rw [if_pos (.inr hb), if_neg ha, if_pos hb, hnat, hb]
        exact iff_of_false ha (by simp)
      · rw [if_neg (not_or.2 ⟨ha, hb⟩), if_neg ha, if_neg hb, List.take_succ_cons,
          List.take_succ_cons, List.map_cons, List.map_cons, List.cons.injEq, ← ih]
        by_cases heq : a.headD 0 = b.headD 0
        · rw [if_pos heq, heq, and_iff_right rfl]
        · rw [if_neg heq]
          by_cases hlow : tolower (a.headD 0) = tolower (b.headD 0)
          · rw [if_neg (not_not_intro hlow), and_iff_right hlow]
          · rw [if_pos hlow, hnat]
            exact iff_of_false hlow fun h => hlow h.1

/-! ### The loop over the mounts -/

/-- A path with other separators fits where the path did. -/
theorem noNul_toSlashes (path : PathName) : NoNul (toSlashes path.chars) := by
  intro c hc
  obtain ⟨d, hd, rfl⟩ := List.mem_map.1 hc
  split_ifs
  · decide
  · exact path.noNul d hd

theorem length_toSlashes (path : PathName) : (toSlashes path.chars).length < lxMaxpath := by
  rw [toSlashes, List.length_map]
  exact path.lt

/-- The test of the loop. -/
theorem strnicmp_rootpath_iff (m : Mount) (path : PathName) :
    strnicmp m.rootpath.chars (opath path) (strlen m.rootpath.chars) = 0 ↔
      AtFront m (toSlashes path.chars) := by
  have hopath : str (opath path) = toSlashes path.chars :=
    str_strncpy_nil_drop (noNul_toSlashes path) (length_toSlashes path) 0
  rw [strnicmp_eq_zero_iff, hopath, m.rootpath.strlen_chars, m.rootpath.noNul.str_eq,
    List.take_length, AtFront]
  exact eq_comm

/-- A path that a root covers has the root at its front. -/
theorem atFront_of_covers {m : Mount} {p : Bytes} (h : m.Covers p) : AtFront m p := by
  have hlow := congrArg (List.map tolower) h.1
  rw [List.map_map, List.map_map] at hlow
  have hcomp : tolower ∘ asciiLower = tolower := funext tolower_asciiLower
  rwa [hcomp] at hlow

/-- What is found, and what is written. -/
theorem osPathToLx_eq (mounts : List Mount) (path : PathName) :
    osPathToLx mounts path =
      match mounts.find? (AtFront · (toSlashes path.chars)) with
      | none => some (-errENOENT, none)
      | some m =>
        if lxMaxpath ≤ m.rootpath.chars.length + 1 then none
        else some (0, some (strncat (strncpy [] m.xrootpath.chars lxMaxpath)
          ((opath path).drop (m.rootpath.chars.length + 1))
          (lxMaxpath - strlen (strncpy [] m.xrootpath.chars lxMaxpath)))) := by
  have htest : (fun sbi : Mount => decide (strnicmp sbi.rootpath.chars (opath path)
      (strlen sbi.rootpath.chars) = 0)) = (AtFront · (toSlashes path.chars)) :=
    funext fun m => decide_eq_decide.2 (strnicmp_rootpath_iff m path)
  rw [osPathToLx, htest]
  cases mounts.find? (AtFront · (toSlashes path.chars)) with
  | none => rfl
  | some m => simp only [PathName.strlen_chars]

/-- `lxpath` is written within its bounds if the two parts have room in it, and they are then what
is in it. -/
theorem lxpath_spec (m : Mount) (path : PathName) (lxpath : Bytes)
    (h : lxpath = strncat (strncpy [] m.xrootpath.chars lxMaxpath)
      ((opath path).drop (m.rootpath.chars.length + 1))
      (lxMaxpath - strlen (strncpy [] m.xrootpath.chars lxMaxpath))) :
    (InBuffer lxpath ↔
      m.xrootpath.chars.length + (m.rest (toSlashes path.chars)).length < lxMaxpath) ∧
    (InBuffer lxpath → str lxpath = m.xrootpath.chars ++ m.rest (toSlashes path.chars)) := by
  obtain ⟨hin, hlen⟩ := inBuffer_path m.xrootpath
  have hrest : str ((opath path).drop (m.rootpath.chars.length + 1)) =
      m.rest (toSlashes path.chars) :=
    str_strncpy_nil_drop (noNul_toSlashes path) (length_toSlashes path) _
  have hfit : InBuffer lxpath ↔
      m.xrootpath.chars.length + (m.rest (toSlashes path.chars)).length < lxMaxpath := by
    rw [h, inBuffer_strncat_iff hin, hlen, strlen, hrest]
  refine ⟨hfit, fun hl => ?_⟩
  have hlt := hfit.1 hl
  rw [h, str_strncat, hrest, m.xrootpath.str_copy, hlen, List.take_of_length_le (by omega)]

/-- A clean mount is one whose mount point and rest are joined. -/
theorem append_eq_lxPath_iff (m : Mount) (p : Bytes) :
    m.xrootpath.chars ++ m.rest p = m.lxPath p ↔ m.rest p = [] ∨
      (m.rest p).dropWhile (· = slash) ≠ [] ∧
        Join.separators slash m.xrootpath.chars (m.rest p) = 1 :=
  Join.append_eq_join_iff ..

/-- A path is translated as it should be if and only if no root is at its front, or the first
one that is leaves room and is clean, or is so by chance. -/
theorem translates_iff (mounts : List Mount) (path : PathName) :
    Translates mounts path ↔ Found mounts (toSlashes path.chars) := by
  rw [Translates, osPathToLx_eq, Found]
  cases hfind : mounts.find? (AtFront · (toSlashes path.chars)) with
  | none =>
    refine iff_of_true ⟨_, rfl, ?_, ?_⟩ fun _ h => nomatch h
    · have hne : -errENOENT ≠ 0 := by decide
      refine iff_of_false hne fun ⟨m, hm, hcov⟩ => ?_
      exact List.find?_eq_none.1 hfind m hm (decide_eq_true (atFront_of_covers hcov))
    · exact fun h => absurd h (by decide)
  | some m =>
    simp only [Option.some.injEq, forall_eq']
    by_cases hroom : lxMaxpath ≤ m.rootpath.chars.length + 1
    · rw [if_pos hroom]
      exact iff_of_false (fun ⟨_, h, _⟩ => nomatch h) fun h => absurd h.1 (Nat.not_lt.2 hroom)
    rw [if_neg hroom, and_iff_right (Nat.lt_of_not_le hroom)]
    obtain ⟨hfit, hstr⟩ := lxpath_spec m path _ rfl
    constructor
    · rintro ⟨r, hr, -, himp⟩
      obtain rfl := Option.some.inj hr
      obtain ⟨m', hm', hcov, lxpath, hlx, hin, hjoin⟩ := himp rfl
      obtain rfl := Option.some.inj hlx
      exact ⟨hfit.1 hin, .inr ⟨m', hm', hcov, (hstr hin).symm.trans hjoin⟩⟩
    · rintro ⟨hlt, hclean⟩
      obtain ⟨m', hm', hcov, hjoin⟩ : ∃ m' ∈ mounts, m'.Covers (toSlashes path.chars) ∧
          m.xrootpath.chars ++ m.rest (toSlashes path.chars) =
            m'.lxPath (toSlashes path.chars) := by
        refine hclean.elim (fun h => ?_) id
        exact ⟨m, List.mem_of_find?_eq_some hfind, h.1, (append_eq_lxPath_iff m _).2 h.2⟩
      have hin := hfit.2 hlt
      exact ⟨_, rfl, iff_of_true rfl ⟨m', hm', hcov⟩, fun _ =>
        ⟨m', hm', hcov, _, rfl, hin, (hstr hin).trans hjoin⟩⟩

/-! ### The names of files -/

/-- `linkinfo.name` of a file, which has no `\` in it. -/
structure FileName extends PathName where
  /-- `lxafs_chk_name` does not accept that character. -/
  noBackslash : backslash ∉ chars

/-- The string that `LX_os2path_from_file` leaves in a buffer for all paths. -/
theorem str_osPathFromFile (name : PathName) :
    str (osPathFromFile name lxMaxpath) = toBackslashes name.chars := by
  have hzero : ((· != 0) ∘ fun c : UInt8 => if c = slash then backslash else c) = (· != 0) := by
    funext c
    simp only [Function.comp]
    split_ifs with hc
    · subst hc
      decide
    · rfl
  rw [osPathFromFile, List.take_of_length_le name.length_copy.le, str, toBackslashes,
    List.takeWhile_map, hzero, ← str, name.str_copy, toBackslashes]

/-- The path that `LX_os2path_from_file` delivers for a file. -/
def os2path (n : FileName) : PathName where
  chars := str (osPathFromFile n.toPathName lxMaxpath)
  noNul := noNul_str _
  lt := by
    rw [str_osPathFromFile, toBackslashes, List.length_map]
    exact n.lt

/-- It is translated back. -/
theorem toSlashes_os2path (n : FileName) : toSlashes (os2path n).chars = n.chars := by
  show toSlashes (str (osPathFromFile n.toPathName lxMaxpath)) = n.chars
  rw [str_osPathFromFile, toBackslashes, toSlashes, List.map_map]
  refine (List.map_congr_left fun c hc => ?_).trans (List.map_id _)
  have hne : c ≠ backslash := fun h => n.noBackslash (h ▸ hc)
  simp only [Function.comp, id]
  split_ifs with h₁ h₂
  · exact h₁.symm
  · exact absurd rfl h₂
  · rfl

/-- The drive `C:`, mounted at `/c`. -/
def driveC : Mount :=
  ⟨⟨rootName, noNul_rootName, length_rootName_lt⟩, ⟨[slash, 99], by decide, by decide⟩⟩

/-- The path `C:\a`. -/
def fileA : PathName := ⟨rootName ++ [backslash, 97], by decide, by decide⟩

end PathMap

end LxApi32
