import LxApi32.Lib.CString

/-!
# Path names

Paths of lxafs are C strings in buffers of `LX_MAXPATH` bytes, with `/` between the parts.
Both the inode cache of the driver and the daemon rename a directory by exchanging the string
`old` at the front of a path for `new`; `rebase` is this exchange, and `Below` says which paths
it is meant for.
-/

namespace LxApi32

open CString

/-- `LX_MAXPATH` -/
def lxMaxpath : ℕ := 260

/-- The character `/`. -/
def slash : UInt8 := 47

theorem strlen_slash : strlen [slash] = 1 := by decide

/-- The path `C:`. -/
def rootName : Bytes := [67, 58]

theorem noNul_rootName : NoNul rootName := by decide

theorem length_rootName_lt : rootName.length < lxMaxpath := by decide

/-- The path `C:/d`. -/
def dirName : Bytes := rootName ++ [slash, 100]

/-- `lxafs_build_fullname_from_parent_i` for a parent with the path `pname`. -/
def buildFullnameFromParent (pname name : Bytes) : Bytes :=
  let p := strncpy [] pname lxMaxpath
  let buf := strcpy [] p
  if strlen p ≠ 0 ∧ (str p).getLast? ≠ some slash then strcat (strcat buf [slash]) name
  else strcat buf name

/-- The path `n` with `new` in the place of its first `old.length` bytes. -/
def rebase (old new n : Bytes) : Bytes := new ++ n.drop old.length

/-- The path `n` is `old` or a path below it. -/
def Below (old n : Bytes) : Prop := n = old ∨ old ++ [slash] <+: n

instance (old n : Bytes) : Decidable (Below old n) :=
  inferInstanceAs (Decidable (n = old ∨ old ++ [slash] <+: n))

/-- What follows the string `old` at the front of a path, as a copy of it. -/
theorem str_strncpy_drop {b old : Bytes} (h : str old <+: str b) (hb : strlen b < lxMaxpath) :
    str (strncpy [] (b.drop (strlen old)) lxMaxpath) = (str b).drop (strlen old) := by
  have hdrop : str (b.drop (strlen old)) = (str b).drop (strlen old) := str_drop h.length_le
  have hlt : strlen (b.drop (strlen old)) < lxMaxpath := by
    rw [strlen, hdrop, List.length_drop]
    exact (Nat.sub_le ..).trans_lt hb
  rw [str_strncpy hlt, hdrop]

variable {old new n r : Bytes}

theorem below_self (old : Bytes) : Below old old := .inl rfl

theorem Below.isPrefix (h : Below old n) : old <+: n := by
  rcases h with rfl | h
  · exact List.prefix_rfl
  · exact (List.prefix_append ..).trans h

@[simp] theorem rebase_append (old new r : Bytes) : rebase old new (old ++ r) = new ++ r := by
  rw [rebase, List.drop_left]

@[simp] theorem rebase_self (old new : Bytes) : rebase old new old = new := by
  simpa using rebase_append old new []

/-- The exchange changes a path that starts with `old`, unless it exchanges `old` for itself. -/
theorem rebase_eq_self_iff (h : old <+: n) : rebase old new n = n ↔ new = old := by
  obtain ⟨r, rfl⟩ := h
  rw [rebase_append, List.append_left_inj]

/-- The same for a copy that is cut off after `k` bytes, if that is past the end of the path. -/
theorem append_take_eq_iff {k : ℕ} (h : (old ++ r).length < new.length + k) :
    new ++ r.take k = old ++ r ↔ new = old := by
  constructor
  · intro heq
    have hlen := congrArg List.length heq
    simp only [List.length_append, List.length_take] at h hlen
    rw [List.take_of_length_le (by omega)] at heq
    exact List.append_cancel_right heq
  · intro heq
    subst heq
    rw [List.length_append] at h
    rw [List.take_of_length_le (by omega)]

/-! ### Paths that fit their buffers -/

/-- A path in a buffer of `LX_MAXPATH` bytes, with the `0` behind it. -/
structure PathName where
  /-- The string. -/
  chars : Bytes
  noNul : NoNul chars
  lt : chars.length < lxMaxpath
  deriving DecidableEq

namespace PathName

/-- `lxafs_build_fullname_from_parent_i`, when there is room for the path. -/
def fromParent (dir : PathName) (name : Bytes)
    (h : strlen (buildFullnameFromParent dir.chars name) < lxMaxpath) : PathName :=
  ⟨str (buildFullnameFromParent dir.chars name), noNul_str _, h⟩

theorem take_str (a : PathName) : (str a.chars).take lxMaxpath = a.chars := by
  rw [a.noNul.str_eq, List.take_of_length_le (Nat.le_of_lt a.lt)]

theorem strlen_chars (a : PathName) : strlen a.chars = a.chars.length :=
  congrArg List.length a.noNul.str_eq

/-- The copy of the path in another buffer. -/
theorem str_copy (a : PathName) : str (strncpy [] a.chars lxMaxpath) = a.chars :=
  str_strncpy_nil_drop a.noNul a.lt 0

theorem strlen_copy (a : PathName) : strlen (strncpy [] a.chars lxMaxpath) = a.chars.length :=
  congrArg List.length a.str_copy

theorem length_copy (a : PathName) : (strncpy [] a.chars lxMaxpath).length = lxMaxpath := by
  rw [length_strncpy, List.length_nil, Nat.zero_max]

/-- The length of the path that `lxafs_build_fullname_from_parent_i` builds. -/
def joinLength (dir : PathName) (name : Bytes) : ℕ :=
  dir.chars.length + (if dir.chars = [] ∨ dir.chars.getLast? = some slash then 0 else 1) +
    strlen name

/-- It is the path and a `0` that stand in the buffer. -/
theorem build_lengths (dir : PathName) (name : Bytes) :
    strlen (buildFullnameFromParent dir.chars name) = dir.joinLength name ∧
      (buildFullnameFromParent dir.chars name).length = dir.joinLength name + 1 := by
  have hbuf : strlen (strcpy [] (strncpy [] dir.chars lxMaxpath)) = dir.chars.length := by
    rw [strlen, strcpy, str_append_zero (noNul_str _), dir.str_copy]
  have hlen : (strcpy [] (strncpy [] dir.chars lxMaxpath)).length = dir.chars.length + 1 := by
    rw [length_strcpy, dir.strlen_copy, List.length_nil, Nat.zero_max]
  unfold buildFullnameFromParent joinLength
  dsimp only
  rw [dir.strlen_copy, dir.str_copy]
  by_cases hsep : dir.chars = [] ∨ dir.chars.getLast? = some slash
  · have hno : ¬ (dir.chars.length ≠ 0 ∧ dir.chars.getLast? ≠ some slash) := fun h =>
      hsep.elim (fun hnil => h.1 (hnil ▸ rfl)) h.2
    rw [if_neg hno, if_pos hsep, strlen_strcat, length_strcat, hbuf, hlen]
    omega
  · have hyes : dir.chars.length ≠ 0 ∧ dir.chars.getLast? ≠ some slash :=
      ⟨fun h0 => hsep (.inl (List.length_eq_zero_iff.1 h0)), fun hlast => hsep (.inr hlast)⟩
    rw [if_pos hyes, if_neg hsep, strlen_strcat, length_strcat, strlen_strcat, length_strcat, hbuf,
      hlen, strlen_slash]
    omega

/-- `!strncmp(a,b,LX_MAXPATH)` for two paths. -/
@[simp] theorem strncmp_eq_zero_iff (a b : PathName) :
    strncmp a.chars b.chars lxMaxpath = 0 ↔ a = b := by
  rw [CString.strncmp_eq_zero_iff, a.take_str, b.take_str, PathName.mk.injEq]

end PathName

end LxApi32
