import LxApi32.Lxafs.Path

/-!
# Renaming a directory in the inode cache

After the daemon has renamed a directory, `lxafs_rename` corrects the path names of the cached
inodes.  It first gives the inode of the directory its new name, and then goes through the list
of all inodes, which contains this one, and exchanges the old name at the front of a path for
the new one.  The test is one for a prefix of the string.

* `lxafsRename_moved_iff` : this moves the paths below the old name and no others exactly if no
  other cached path, and not the new name either, starts with the characters of the old name.
* `renameDir_sibling`, `renameDir_longer` : what happens otherwise.
-/

namespace LxApi32

open CString

/-- What a rename needs of `struct lxafs_inode_info`. -/
structure LxafsInodeInfo where
  /-- `linkinfo.name` -/
  name : Bytes
  /-- `S_ISDIR(inode.i_mode)` -/
  isDir : Bool
  deriving DecidableEq, Repr

/-- The body of the loop over `sbi->inode_list`. -/
def renameChild (oldname newname : Bytes) (li : LxafsInodeInfo) : LxafsInodeInfo :=
  if strncmp li.name oldname (strlen oldname) = 0 then
    let tmp := strncpy [] (li.name.drop (strlen oldname)) lxMaxpath
    let name := strncpy li.name newname lxMaxpath
    { li with name := strncat name tmp (lxMaxpath - strlen name) }
  else li

/-- `lxafs_rename` for the inode at position `i` of `sbi->inode_list`.  `alloc` is the result of
`LX_alloc_objects`, `err` that of `LX_LXAFS_RENAME`.  Marking an inode dirty and writing it
change no name. -/
def lxafsRename (inodes : List LxafsInodeInfo) (i : ℕ) (oldDir oldDentry newDir newDentry : Bytes)
    (alloc err : ℤ) : ℤ × List LxafsInodeInfo :=
  if alloc ≠ 0 then (alloc, inodes)
  else
    let oldname := buildFullnameFromParent oldDir oldDentry
    let newname := buildFullnameFromParent newDir newDentry
    if err ≠ 0 then (err, inodes)
    else
      let inodes := inodes.modify i fun li => { li with name := strncpy li.name newname lxMaxpath }
      if inodes[i]?.any (·.isDir) then (0, inodes.map (renameChild oldname newname))
      else (0, inodes)

/-- A cached path before and after the rename: a path below the old name has the new name in
front, any other is unchanged. -/
def Moved (old new n n' : Bytes) : Prop :=
  (Below old n → n' = rebase old new n) ∧ (¬ Below old n → n' = n)

/-- Every cached path is moved. -/
def CacheMoved (old new : Bytes) (before after : List LxafsInodeInfo) : Prop :=
  ∀ (j : ℕ) (li : LxafsInodeInfo), before[j]? = some li →
    ∃ li', after[j]? = some li' ∧ Moved old new (str li.name) (str li'.name)

/-- The paths fit their buffers, before the rename and after it. -/
structure PathsFit (old new : Bytes) (inodes : List LxafsInodeInfo) : Prop where
  new_lt : new.length < lxMaxpath
  name_lt : ∀ li ∈ inodes, strlen li.name < lxMaxpath
  moved_lt : ∀ li ∈ inodes, Below old (str li.name) →
    (rebase old new (str li.name)).length < lxMaxpath

/-- No path starts with the old name without being below it, and the new name does not start
with it either, unless it is the old one. -/
def NoCommonFront (old new : Bytes) (inodes : List LxafsInodeInfo) : Prop :=
  new = old ∨ ¬ old <+: new ∧ ∀ li ∈ inodes, old <+: str li.name → Below old (str li.name)

/-! ### One inode -/

theorem renameChild_of_not_isPrefix {oldname newname : Bytes} {li : LxafsInodeInfo}
    (h : ¬ str oldname <+: str li.name) : renameChild oldname newname li = li :=
  if_neg fun h' => h ((strncmp_strlen ..).1 h')

/-- A path with the old name in front gets the new name, and as much of the rest as there is
room for. -/
theorem str_renameChild {oldname newname : Bytes} {li : LxafsInodeInfo}
    (h : str oldname <+: str li.name) (hnew : strlen newname < lxMaxpath)
    (hli : strlen li.name < lxMaxpath) :
    str (renameChild oldname newname li).name = str newname ++
      ((str li.name).drop (strlen oldname)).take (lxMaxpath - strlen newname) := by
  have hname : str (strncpy li.name newname lxMaxpath) = str newname := str_strncpy hnew
  have hlen : strlen (strncpy li.name newname lxMaxpath) = strlen newname := by
    rw [strlen, hname, strlen]
  rw [renameChild, if_pos ((strncmp_strlen ..).2 h)]
  simp only
  rw [str_strncat, hname, str_strncpy_drop h hli, hlen]

section Moved

variable {old new n r : Bytes}

theorem moved_of_below (h : Below old n) : Moved old new n (rebase old new n) :=
  ⟨fun _ => rfl, fun hn => absurd h hn⟩

theorem moved_of_not_isPrefix (h : ¬ old <+: n) : Moved old new n n :=
  ⟨fun hb => absurd hb.isPrefix h, fun _ => rfl⟩

/-- A path that starts with the old name is moved by the loop exactly if it is below it. -/
theorem moved_append_take_iff (hn : old <+: n) (hlt : n.length < lxMaxpath)
    (hfit : Below old n → (rebase old new n).length < lxMaxpath) :
    Moved old new n (new ++ (n.drop old.length).take (lxMaxpath - new.length)) ↔
      new = old ∨ Below old n := by
  obtain ⟨r, rfl⟩ := hn
  rw [List.drop_left]
  by_cases hb : Below old (old ++ r)
  · have hlen := hfit hb
    rw [rebase_append, List.length_append] at hlen
    have htake : r.take (lxMaxpath - new.length) = r := List.take_of_length_le (by omega)
    rw [htake, ← rebase_append old new r]
    exact iff_of_true (moved_of_below hb) (.inr hb)
  · have hcut : (old ++ r).length < new.length + (lxMaxpath - new.length) := by omega
    simp only [Moved, hb, false_imp_iff, true_and, not_false_eq_true, true_imp_iff, or_false]
    exact append_take_eq_iff hcut

/-- The renamed inode, whose path is already the new one when the loop comes to it, keeps it
exactly if the new name does not start with the old one. -/
theorem moved_new_iff (hnew : new.length < lxMaxpath) (h : old <+: new) :
    Moved old new old (new ++ (new.drop old.length).take (lxMaxpath - new.length)) ↔ new = old := by
  obtain ⟨r, rfl⟩ := h
  rw [List.drop_left]
  simp only [Moved, below_self, true_imp_iff, not_true_eq_false, false_imp_iff, and_true,
    rebase_self]
  rw [List.append_right_eq_self, List.append_right_eq_self, List.take_eq_nil_iff]
  apply or_iff_right
  intro h
  omega

end Moved

section Names

variable {oldname newname : Bytes} {li : LxafsInodeInfo}

/-- The loop moves the path of an inode that is still the old one. -/
theorem moved_renameChild_iff (hnew : strlen newname < lxMaxpath) (hli : strlen li.name < lxMaxpath)
    (hfit : Below (str oldname) (str li.name) →
      (rebase (str oldname) (str newname) (str li.name)).length < lxMaxpath) :
    Moved (str oldname) (str newname) (str li.name) (str (renameChild oldname newname li).name) ↔
      (str oldname <+: str li.name →
        str newname = str oldname ∨ Below (str oldname) (str li.name)) := by
  by_cases hpre : str oldname <+: str li.name
  · rw [str_renameChild hpre hnew hli]
    simp only [hpre, true_imp_iff]
    exact moved_append_take_iff hpre hli hfit
  · rw [renameChild_of_not_isPrefix hpre]
    exact iff_of_true (moved_of_not_isPrefix hpre) fun h => absurd h hpre

/-- The loop and the renamed inode, whose path is the new one already. -/
theorem moved_renamed_iff (hnew : strlen newname < lxMaxpath) (hname : str li.name = str newname) :
    Moved (str oldname) (str newname) (str oldname) (str (renameChild oldname newname li).name) ↔
      (str oldname <+: str newname → str newname = str oldname) := by
  by_cases hpre : str oldname <+: str newname
  · rw [str_renameChild (hname.symm ▸ hpre) hnew (by rwa [strlen, hname]), hname]
    simp only [hpre, true_imp_iff]
    exact moved_new_iff hnew hpre
  · rw [renameChild_of_not_isPrefix (hname.symm ▸ hpre), hname]
    refine iff_of_true ?_ fun h => absurd h hpre
    simpa using moved_of_below (below_self (str oldname))

end Names

/-! ### The whole list -/

section List

variable {inodes : List LxafsInodeInfo} {i : ℕ} {li : LxafsInodeInfo}
  {oldDir oldDentry newDir newDentry oldname newname : Bytes}

/-- The list after the rename of a directory. -/
theorem getElem?_lxafsRename (hi : inodes[i]? = some li) (hdir : li.isDir = true)
    (hold : buildFullnameFromParent oldDir oldDentry = oldname)
    (hnew : buildFullnameFromParent newDir newDentry = newname) (j : ℕ) :
    (lxafsRename inodes i oldDir oldDentry newDir newDentry 0 0).2[j]? =
      inodes[j]?.map fun lj => renameChild oldname newname
        (if i = j then { lj with name := strncpy lj.name newname lxMaxpath } else lj) := by
  simp only [lxafsRename, hold, hnew, ne_eq, not_true_eq_false, ↓reduceIte,
    List.getElem?_modify_eq, hi, Option.map_eq_map, Option.map_some, Option.any_some, hdir,
    List.getElem?_map, List.getElem?_modify, Option.map_map]
  rfl

theorem cacheMoved_iff (hi : inodes[i]? = some li) (hdir : li.isDir = true)
    (hold : buildFullnameFromParent oldDir oldDentry = oldname)
    (hnew : buildFullnameFromParent newDir newDentry = newname) :
    CacheMoved (str oldname) (str newname) inodes
        (lxafsRename inodes i oldDir oldDentry newDir newDentry 0 0).2 ↔
      ∀ (j : ℕ) (lj : LxafsInodeInfo), inodes[j]? = some lj →
        Moved (str oldname) (str newname) (str lj.name) (str (renameChild oldname newname
          (if i = j then { lj with name := strncpy lj.name newname lxMaxpath } else lj)).name) := by
  refine forall_congr' fun j => forall_congr' fun lj => imp_congr_right fun hj => ?_
  rw [getElem?_lxafsRename hi hdir hold hnew, hj]
  simp

/-- **The rename of a directory moves the cached paths below it, and no others, exactly if only
they start with the characters of its old name.** -/
theorem lxafsRename_moved_iff {old new : Bytes}
    (hold : str (buildFullnameFromParent oldDir oldDentry) = old)
    (hnew : str (buildFullnameFromParent newDir newDentry) = new)
    (hi : inodes[i]? = some li) (hdir : li.isDir = true) (hname : str li.name = old)
    (hfit : PathsFit old new inodes) :
    CacheMoved old new inodes (lxafsRename inodes i oldDir oldDentry newDir newDentry 0 0).2 ↔
      NoCommonFront old new inodes := by
  generalize hoc : buildFullnameFromParent oldDir oldDentry = oldname at hold
  generalize hnc : buildFullnameFromParent newDir newDentry = newname at hnew
  subst hold hnew
  rw [cacheMoved_iff hi hdir hoc hnc]
  -- the renamed inode, and any other one
  have hself : ∀ l : LxafsInodeInfo, Moved (str oldname) (str newname) (str oldname)
      (str (renameChild oldname newname
        { l with name := strncpy l.name newname lxMaxpath }).name) ↔
      (str oldname <+: str newname → str newname = str oldname) := fun l =>
    moved_renamed_iff hfit.new_lt (str_strncpy hfit.new_lt)
  have hother : ∀ lj ∈ inodes, Moved (str oldname) (str newname) (str lj.name)
      (str (renameChild oldname newname lj).name) ↔
      (str oldname <+: str lj.name →
        str newname = str oldname ∨ Below (str oldname) (str lj.name)) := fun lj hlj =>
    moved_renameChild_iff hfit.new_lt (hfit.name_lt lj hlj) (hfit.moved_lt lj hlj)
  constructor
  · intro h
    by_cases heq : str newname = str oldname
    · exact .inl heq
    refine .inr ⟨?_, ?_⟩
    · intro hpre
      apply heq
      have := h i li hi
      rw [if_pos rfl, hname] at this
      exact (hself li).1 this hpre
    · intro lj hlj hpre
      obtain ⟨j, hj⟩ := List.mem_iff_getElem?.1 hlj
      by_cases hij : i = j
      · subst hij
        rw [hi] at hj
        cases hj
        rw [hname]
        exact below_self _
      · have := h j lj hj
        rw [if_neg hij] at this
        exact ((hother lj hlj).1 this hpre).resolve_left heq
  · intro h j lj hj
    by_cases hij : i = j
    · subst hij
      rw [hi] at hj
      cases hj
      rw [if_pos rfl, hname]
      exact (hself li).2 fun hpre => h.resolve_right fun hno => hno.1 hpre
    · rw [if_neg hij]
      have hlj := List.mem_of_getElem? hj
      exact (hother lj hlj).2 fun hpre => h.imp_right fun hno => hno.2 lj hlj hpre

end List

/-- A rename that fails changes no name. -/
theorem lxafsRename_of_err {inodes : List LxafsInodeInfo} {i : ℕ} {alloc err : ℤ}
    (h : alloc ≠ 0 ∨ err ≠ 0) (oldDir oldDentry newDir newDentry : Bytes) :
    (lxafsRename inodes i oldDir oldDentry newDir newDentry alloc err).2 = inodes ∧
      (lxafsRename inodes i oldDir oldDentry newDir newDentry alloc err).1 ≠ 0 := by
  unfold lxafsRename
  by_cases ha : alloc = 0
  · have he : err ≠ 0 := h.resolve_left (not_not_intro ha)
    simp [ha, he]
  · simp [ha]

/-- The root, the directory `C:/d` and a file with the path `name`. -/
def cacheWith (name : Bytes) : List LxafsInodeInfo :=
  [⟨rootName, true⟩, ⟨dirName, true⟩, ⟨name, false⟩]

/-- The cache after the directory `d` of the root is renamed to `newDentry`. -/
def renameDir (newDentry name : Bytes) : List LxafsInodeInfo :=
  (lxafsRename (cacheWith name) 1 rootName [100] rootName newDentry 0 0).2

/-- The rename of `d` to `e` also renames the file `C:/dx`, to `C:/ex`. -/
theorem renameDir_sibling :
    (renameDir [101] (dirName ++ [120])).map (fun li => str li.name) =
      [rootName, rootName ++ [slash, 101], rootName ++ [slash, 101, 120]] := by
  decide +kernel

/-- The rename of `d` to `d2` gives the directory the name `C:/d22`. -/
theorem renameDir_longer :
    (renameDir [100, 50] (dirName ++ [slash, 102])).map (fun li => str li.name) =
      [rootName, dirName ++ [50, 50], dirName ++ [50, slash, 102]] := by
  decide +kernel

/-- So there are renames that do not move the cached paths as they should. -/
theorem not_cacheMoved_sibling :
    ¬ CacheMoved dirName (rootName ++ [slash, 101]) (cacheWith (dirName ++ [120]))
      (renameDir [101] (dirName ++ [120])) := by
  intro h
  obtain ⟨li', hli', -, hm⟩ := h 2 _ rfl
  have hname : (renameDir [101] (dirName ++ [120]))[2]?.map (fun li => str li.name) =
      some (rootName ++ [slash, 101, 120]) := by
    rw [← List.getElem?_map, renameDir_sibling]
    rfl
  rw [hli', Option.map_some, hm (by decide)] at hname
  revert hname
  decide

/-- `lxafsRename_moved_iff` for a cache with a file below the directory. -/
theorem cacheMoved_child :
    CacheMoved dirName (rootName ++ [slash, 101]) (cacheWith (dirName ++ [slash, 102]))
      (renameDir [101] (dirName ++ [slash, 102])) := by
  refine (lxafsRename_moved_iff (by decide +kernel) (by decide +kernel) rfl rfl (by decide)
    ⟨by decide, by decide, by decide⟩).2 (.inr ⟨by decide, by decide⟩)

end LxApi32
