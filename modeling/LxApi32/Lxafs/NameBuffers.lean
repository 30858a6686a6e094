import LxApi32.Lxafs.Create
import LxApi32.Lxafs.Rename

/-!
# The buffers for path names

`lxafs_build_fullname_from_parent_i` is not told how long its buffer is, and the functions that call
it do not look at the length of the path either.  So a long name in a directory with a long path
overruns the `LX_MAXPATH` bytes.  Here the functions are reduced to what they return and to the
buffers that they write a path to.  What they find in memory behind the end of a buffer they do not
use.

* `inBuffer_build_iff`, `inBuffer_strncat_iff` : when a path has room in its buffer.
* `create_ok_iff`, `mkdir_ok_iff`, `lookup_ok_iff`, `link_ok_iff`, `rename_ok_iff` : the functions.
* `PathOp.ok_iff` : a call returns an error, or stays within its buffers, exactly if one of the
  steps before its end fails, or there is room for each path.
-/

namespace LxApi32

open CString

/-- The path in a buffer and its `0` stand in the first `LX_MAXPATH` bytes. -/
def InBuffer (b : Bytes) : Prop := strlen b < lxMaxpath ∧ b.length ≤ lxMaxpath

instance : DecidablePred InBuffer :=
  fun b => inferInstanceAs (Decidable (strlen b < lxMaxpath ∧ b.length ≤ lxMaxpath))

/-- The path that `lxafs_build_fullname_from_parent_i` builds has room in its buffer. -/
theorem inBuffer_build_iff (dir : PathName) (name : Bytes) :
    InBuffer (buildFullnameFromParent dir.chars name) ↔ dir.joinLength name < lxMaxpath := by
  obtain ⟨hstr, hlen⟩ := dir.build_lengths name
  rw [InBuffer, hstr, hlen]
  omega

/-- So has its copy in an inode, by `strcpy` or `strncpy`. -/
theorem inBuffer_copy {src : Bytes} (h : InBuffer src) :
    InBuffer (strcpy CreateCall.emptyName src) ∧
      InBuffer (strncpy CreateCall.emptyName src lxMaxpath) := by
  have hempty : CreateCall.emptyName.length = lxMaxpath := List.length_replicate
  refine ⟨⟨?_, ?_⟩, ?_, ?_⟩
  · rw [strlen, strcpy, str_append_zero (noNul_str _)]
    exact h.1
  · rw [length_strcpy, hempty]
    exact max_le (Nat.le_refl _) h.1
  · rw [strlen, str_strncpy h.1]
    exact h.1
  · rw [length_strncpy, hempty, max_self]

/-- A string that is appended with the room that is left has that room, and its `0`, only if it is
shorter. -/
theorem inBuffer_strncat_iff {dst src : Bytes} (h : InBuffer dst) :
    InBuffer (strncat dst src (lxMaxpath - strlen dst)) ↔
      strlen dst + strlen src < lxMaxpath := by
  obtain ⟨hstr, hlen⟩ := h
  rw [InBuffer, strlen_strncat, length_strncat]
  omega

/-- A path in a copy that has room for all paths. -/
theorem inBuffer_path (a : PathName) :
    InBuffer (strncpy [] a.chars lxMaxpath) ∧
      strlen (strncpy [] a.chars lxMaxpath) = a.chars.length := by
  refine ⟨⟨?_, a.length_copy.le⟩, a.strlen_copy⟩
  rw [a.strlen_copy]
  exact a.lt

/-! ### The functions -/

/-- What `iod_lookup` finds in `fileinfo`. -/
structure FoundFile where
  /-- `linkinfo.name`, which is empty unless the file is a link. -/
  name : Bytes
  /-- `linkinfo.xname` -/
  xname : Bytes

/-- What `iod_lookup` reads of `nameidata`. -/
structure LookupIntent where
  /-- `LOOKUP_CREATE` -/
  create : Bool
  /-- `O_TRUNC` -/
  trunc : Bool

/-- A call of `iod_lookup`, and what the functions answer that it calls. -/
structure LookupCall where
  /-- `linkinfo.name` of the inode of the directory -/
  dir : PathName
  /-- `d_name` of the dentry: the name, of `len` bytes -/
  name : Bytes
  /-- The name is a string. -/
  noNul : NoNul name
  /-- `nameidata` -/
  nameidata : Option LookupIntent
  /-- `xrootpath` of the super block -/
  xrootpath : PathName
  /-- `kmalloc` has memory for `fullname`. -/
  alloc : Bool
  /-- `lxafs_get_fullfileinfo` -/
  fileinfo : Option FoundFile
  /-- `lxafs_file_exists` for the link master -/
  masterExists : Bool
  /-- `iget_locked` delivers an inode. -/
  iget : Bool

namespace LookupCall

/-- `xname` of `lxafs_linkmaster_lookup` -/
def masterXname (c : LookupCall) (fi : FoundFile) : Bytes :=
  let xname := strncpy [] c.xrootpath.chars lxMaxpath
  strncat xname fi.xname (lxMaxpath - strlen xname)

/-- `iod_lookup` from the label `do_it` on. -/
def doIt (c : LookupCall) (fullname : Bytes) (fi : FoundFile) : ℤ × List Bytes :=
  if fi.name.headD 0 ≠ 0 then
    -- 0 is returned with the link master and without it
    (0, fullname :: if c.masterExists then [c.masterXname fi] else [])
  else if ¬ c.iget then (-errENOENT, [fullname])
  else (0, [fullname, strncpy CreateCall.emptyName fullname lxMaxpath])

/-- `iod_lookup`: the error that it returns, or 0, and the buffers. -/
def iodLookup (c : LookupCall) : ℤ × List Bytes :=
  if ¬ c.alloc then (-errENOMEM, [])
  else
    let fullname := buildFullnameFromParent c.dir.chars c.name
    let err := (lxafsChkName c.name c.name.length).1
    if err = negENAMETOOLONG then (negENAMETOOLONG, [fullname])
    else if err ≠ 0 then (0, [fullname])
    else match c.fileinfo, c.nameidata with
      | some fi, none => c.doIt fullname fi
      | none, none => (0, [fullname])
      | some fi, some nd =>
        if nd.create ∧ ¬ nd.trunc then (-errEEXIST, [fullname]) else c.doIt fullname fi
      | none, some nd => if nd.create then (0, [fullname]) else (-errENOENT, [fullname])

end LookupCall

/-- A call of `iod_link`, and what the functions answer that it calls. -/
structure LinkPaths where
  /-- `i_nlink` of the inode -/
  nlink : ULONG
  /-- `linkinfo.name` of the inode -/
  oldName : PathName
  /-- `linkinfo.name` of the inode of the directory -/
  dir : PathName
  /-- The string at `d_iname` of the dentry, which is its name if that is short enough to stand
  there. -/
  iname : Bytes
  /-- `lxafs_alloc_linkinfo` for `linkmaster` and `link` -/
  alloc : Bool
  /-- `lxafs_create_file` -/
  create : ULONG

/-- `iod_link` -/
def LinkPaths.iodLink (c : LinkPaths) : ℤ × List Bytes :=
  if 15 < c.nlink then (-errEMLINK, [])
  else if ¬ c.alloc then (-errEPERM, [])
  else
    let name := buildFullnameFromParent c.dir.chars c.iname
    if c.create ≠ 0 then (-errEPERM, [name])
    else (0, [name, strncpy [] c.oldName.chars lxMaxpath])

/-- A call of `lxafs_rename`, and what the functions answer that it calls. -/
structure RenameCall where
  /-- `sbi->inode_list` -/
  inodes : List LxafsInodeInfo
  /-- The place of the renamed inode. -/
  place : ℕ
  /-- `linkinfo.name` of the inode of the old directory -/
  oldDir : PathName
  /-- The name in it. -/
  oldDentry : Bytes
  /-- `linkinfo.name` of the inode of the new directory -/
  newDir : PathName
  /-- The name in it. -/
  newDentry : Bytes
  /-- `LX_alloc_objects` -/
  alloc : ℤ
  /-- `LX_LXAFS_RENAME` -/
  err : ℤ
  /-- The names of the inodes are in their buffers. -/
  inBuffer : ∀ li ∈ inodes, InBuffer li.name

namespace RenameCall

/-- `oldname` -/
def oldname (c : RenameCall) : Bytes := buildFullnameFromParent c.oldDir.chars c.oldDentry

/-- `newname` -/
def newname (c : RenameCall) : Bytes := buildFullnameFromParent c.newDir.chars c.newDentry

/-- `lxafs_rename`, and the buffers: those of the two paths and the names of the inodes. -/
def run (c : RenameCall) : ℤ × List Bytes :=
  let r := lxafsRename c.inodes c.place c.oldDir.chars c.oldDentry c.newDir.chars c.newDentry
    c.alloc c.err
  (r.1, (if c.alloc = 0 then [c.oldname, c.newname] else []) ++ r.2.map (·.name))

end RenameCall

/-- A call of one of the functions that build a path. -/
inductive PathOp (κ : Type)
  /-- `iod_create` -/
  | create (c : CreateCall) (s : CreateState κ)
  /-- `iod_lookup` -/
  | lookup (c : LookupCall)
  /-- `iod_link` -/
  | link (c : LinkPaths)
  /-- `iod_mkdir` -/
  | mkdir (c : CreateCall) (s : CreateState κ)
  /-- `lxafs_rename` -/
  | rename (c : RenameCall)

namespace PathOp

variable {κ : Type} [DecidableEq κ] (key : Bytes → κ)

/-- What the call returns, and the buffers that it writes a path to. -/
def run : PathOp κ → ℤ × List Bytes
  | create c s => ((c.iodCreate key s).ret, (c.iodCreate key s).built)
  | lookup c => c.iodLookup
  | link c => c.iodLink
  | mkdir c s => ((c.iodMkdir key s).ret, (c.iodMkdir key s).built)
  | rename c => c.run

/-- The call returns an error, or every path has room in its buffer. -/
def Ok (op : PathOp κ) : Prop := (op.run key).1 ≠ 0 ∨ ∀ b ∈ (op.run key).2, InBuffer b

end PathOp

/-! ### Errors -/

/-- There is no such file or directory, and the host creates it. -/
def CreateCall.Creates {κ : Type} (key : Bytes → κ) (c : CreateCall) (s : CreateState κ) : Prop :=
  c.rc = 0 ∧ s.host (key (CreateOp.path c)) = none

/-- `iod_lookup` has no entry for the name. -/
def LookupCall.Refused (c : LookupCall) : Prop :=
  match c.fileinfo with
  | none => ∃ nd, c.nameidata = some nd ∧ nd.create = false
  | some fi => (∃ nd, c.nameidata = some nd ∧ nd.create = true ∧ nd.trunc = false) ∨
      fi.name.headD 0 = 0 ∧ c.iget = false

namespace PathOp

variable {κ : Type} (key : Bytes → κ)

/-- A step fails, and the call reports it. -/
def Fails : PathOp κ → Prop
  | create c s => c.alloc = false ∨ ¬ CreateOp.Accepted c ∨
      c.newInode = true ∧ ¬ c.Creates key s
  | lookup c => c.alloc = false ∨ 254 < c.name.length ∨
      (lxafsChkName c.name c.name.length).1 = 0 ∧ c.Refused
  | link c => 15 < c.nlink ∨ c.alloc = false ∨ c.create ≠ 0
  | mkdir c s => c.alloc = false ∨ ¬ CreateOp.Accepted c ∨ ¬ c.Creates key s ∨ c.newInode = false
  | rename c => c.alloc ≠ 0 ∨ c.err ≠ 0

/-- There is room for every path: the one of the entry, the one of a link master below the root of
the file system, and, when a directory is renamed, those of all inodes that begin with its old
path. -/
def Room : PathOp κ → Prop
  | create c _ => c.dir.joinLength c.name < lxMaxpath
  | lookup c => c.dir.joinLength c.name < lxMaxpath ∧
      ∀ fi, c.fileinfo = some fi → (lxafsChkName c.name c.name.length).1 = 0 →
        fi.name.headD 0 ≠ 0 → c.masterExists = true →
        c.xrootpath.chars.length + strlen fi.xname < lxMaxpath
  | link c => c.dir.joinLength c.iname < lxMaxpath
  | mkdir c _ => c.dir.joinLength c.name < lxMaxpath
  | rename c => c.oldDir.joinLength c.oldDentry < lxMaxpath ∧
      c.newDir.joinLength c.newDentry < lxMaxpath ∧
      (c.inodes[c.place]?.any (·.isDir) → ∀ j li, c.inodes[j]? = some li →
        str c.oldname <+: (if c.place = j then str c.newname else str li.name) →
        c.newDir.joinLength c.newDentry +
          (if c.place = j then c.newDir.joinLength c.newDentry else strlen li.name) <
            lxMaxpath + c.oldDir.joinLength c.oldDentry)

variable [DecidableEq κ]

/-- A call that cannot fail any more. -/
theorem ok_iff_of_ret {op : PathOp κ} (built : List Bytes) (hrun : op.run key = (0, built))
    (hfails : ¬ op.Fails key) (hbuilt : (∀ b ∈ built, InBuffer b) ↔ op.Room) :
    op.Ok key ↔ op.Fails key ∨ op.Room := by
  rw [Ok, hrun, or_iff_right hfails, or_iff_right fun h => h rfl]
  exact hbuilt

/-- A call that has failed. -/
theorem ok_iff_of_error {op : PathOp κ} (hrun : (op.run key).1 ≠ 0) (hfails : op.Fails key) :
    op.Ok key ↔ op.Fails key ∨ op.Room :=
  iff_of_true (.inl hrun) (.inl hfails)

/-- The path, and its copy in an inode if there is one. -/
theorem built_iff (dir : PathName) (name : Bytes) {copy : List Bytes}
    (hcopy : InBuffer (buildFullnameFromParent dir.chars name) → ∀ b ∈ copy, InBuffer b) :
    (∀ b ∈ buildFullnameFromParent dir.chars name :: copy, InBuffer b) ↔
      dir.joinLength name < lxMaxpath := by
  rw [List.forall_mem_cons, ← inBuffer_build_iff]
  exact ⟨fun h => h.1, fun h => ⟨h, hcopy h⟩⟩

theorem built_singleton_iff (dir : PathName) (name : Bytes) :
    (∀ b ∈ [buildFullnameFromParent dir.chars name], InBuffer b) ↔
      dir.joinLength name < lxMaxpath := by
  rw [List.forall_mem_singleton, inBuffer_build_iff]

/-- `iod_create` -/
theorem create_ok_iff (c : CreateCall) (s : CreateState κ) :
    (create c s).Ok key ↔ (create c s).Fails key ∨ (create c s).Room := by
  have hends := CreateOp.iodCreate_ends key c s
  have hrun : (create c s).run key = ((c.iodCreate key s).ret, (c.iodCreate key s).built) := rfl
  generalize c.iodCreate key s = r at hends hrun
  cases hends with
  | noMemory halloc =>
    refine ok_iff_of_error key ?_ (.inl halloc)
    rw [hrun]
    show -errENOMEM ≠ 0
    decide
  | refused halloc hname he =>
    refine ok_iff_of_error key ?_ (.inr (.inl hname))
    rw [hrun]
    exact he
  | noInode halloc hname hnew =>
    refine ok_iff_of_ret key _ hrun ?_ (built_singleton_iff ..)
    rintro (h | h | h)
    · cases halloc.symm.trans h
    · exact h hname
    · cases hnew.symm.trans h.1
  | noObject halloc hname hnew hnot he =>
    refine ok_iff_of_error key ?_ (.inr (.inr ⟨hnew, hnot⟩))
    rw [hrun]
    exact he
  | done halloc hname hnew hcreates =>
    refine ok_iff_of_ret key _ hrun ?_
      (built_iff _ _ fun h => List.forall_mem_singleton.2 (inBuffer_copy h).1)
    rintro (h | h | h)
    · cases halloc.symm.trans h
    · exact h hname
    · exact h.2 hcreates

/-- `iod_mkdir` -/
theorem mkdir_ok_iff (c : CreateCall) (s : CreateState κ) :
    (mkdir c s).Ok key ↔ (mkdir c s).Fails key ∨ (mkdir c s).Room := by
  have hends := CreateOp.iodMkdir_ends key c s
  have hrun : (mkdir c s).run key = ((c.iodMkdir key s).ret, (c.iodMkdir key s).built) := rfl
  generalize c.iodMkdir key s = r at hends hrun
  have hENOENT : -errENOENT ≠ 0 := by decide
  cases hends with
  | noMemory halloc =>
    refine ok_iff_of_error key ?_ (.inl halloc)
    rw [hrun]
    show -errENOMEM ≠ 0
    decide
  | refused halloc hname he =>
    refine ok_iff_of_error key ?_ (.inr (.inl hname))
    rw [hrun]
    exact he
  | noObject halloc hname hnot =>
    refine ok_iff_of_error key ?_ (.inr (.inr (.inl hnot)))
    rw [hrun]
    exact hENOENT
  | noInode halloc hname hcreates hnew =>
    refine ok_iff_of_error key ?_ (.inr (.inr (.inr hnew)))
    rw [hrun]
    exact hENOENT
  | done halloc hname hcreates hnew =>
    refine ok_iff_of_ret key _ hrun ?_
      (built_iff _ _ fun h => List.forall_mem_singleton.2 (inBuffer_copy h).2)
    rintro (h | h | h | h)
    · cases halloc.symm.trans h
    · exact h hname
    · exact h hcreates
    · cases hnew.symm.trans h

/-- `iod_link` -/
theorem link_ok_iff (c : LinkPaths) :
    (link c : PathOp κ).Ok key ↔ (link c : PathOp κ).Fails key ∨ (link c : PathOp κ).Room := by
  have hEMLINK : -errEMLINK ≠ 0 := by decide
  have hEPERM : -errEPERM ≠ 0 := by decide
  by_cases hlinks : 15 < c.nlink
  · refine ok_iff_of_error key ?_ (.inl hlinks)
    simpa only [run, LinkPaths.iodLink, if_pos hlinks] using hEMLINK
  by_cases halloc : c.alloc = true
  swap
  · refine ok_iff_of_error key ?_ (.inr (.inl (Bool.eq_false_iff.2 halloc)))
    simpa only [run, LinkPaths.iodLink, if_neg hlinks, if_pos halloc] using hEPERM
  by_cases hcreate : c.create = 0
  swap
  · refine ok_iff_of_error key ?_ (.inr (.inr hcreate))
    simpa only [run, LinkPaths.iodLink, if_neg hlinks, if_neg (not_not_intro halloc),
      if_pos hcreate] using hEPERM
  refine ok_iff_of_ret key [buildFullnameFromParent c.dir.chars c.iname,
    strncpy [] c.oldName.chars lxMaxpath] ?_ ?_
    (built_iff _ _ fun _ => List.forall_mem_singleton.2 (inBuffer_path c.oldName).1)
  · simp only [run, LinkPaths.iodLink, if_neg hlinks, if_neg (not_not_intro halloc),
      if_neg (not_not_intro hcreate)]
  · rintro (h | h | h)
    · exact hlinks h
    · exact Bool.eq_false_iff.1 h halloc
    · exact h hcreate

theorem chkName_tooLong_iff (name : Bytes) (len : ℕ) :
    (lxafsChkName name len).1 = negENAMETOOLONG ↔ 254 < len := by
  unfold lxafsChkName
  dsimp only
  split_ifs with hlen <;> simp [hlen, negENAMETOOLONG, negEINVAL]

/-- `iod_lookup` from the label `do_it` on. -/
theorem doIt_ok_iff {c : LookupCall} {fi : FoundFile} (hfi : c.fileinfo = some fi)
    (hchk : (lxafsChkName c.name c.name.length).1 = 0)
    (hlen : c.alloc = true ∧ ¬ 254 < c.name.length)
    (hnd : ¬ ∃ nd, c.nameidata = some nd ∧ nd.create = true ∧ nd.trunc = false)
    (hrun : c.iodLookup = c.doIt (buildFullnameFromParent c.dir.chars c.name) fi) :
    (lookup c : PathOp κ).Ok key ↔
      (lookup c : PathOp κ).Fails key ∨ (lookup c : PathOp κ).Room := by
  have hfails : (lookup c : PathOp κ).Fails key ↔ fi.name.headD 0 = 0 ∧ c.iget = false := by
    simp [Fails, LookupCall.Refused, hfi, hchk, hlen, hnd]
  have hroom : (lookup c : PathOp κ).Room ↔ c.dir.joinLength c.name < lxMaxpath ∧
      (fi.name.headD 0 ≠ 0 → c.masterExists = true →
        c.xrootpath.chars.length + strlen fi.xname < lxMaxpath) := by
    simp [Room, hfi, hchk]
  by_cases hlink : fi.name.headD 0 = 0
  · by_cases higet : c.iget = true
    · refine ok_iff_of_ret key [buildFullnameFromParent c.dir.chars c.name, strncpy
        CreateCall.emptyName (buildFullnameFromParent c.dir.chars c.name) lxMaxpath] ?_ ?_ ?_
      · rw [run, hrun, LookupCall.doIt, if_neg (not_not_intro hlink),
          if_neg (not_not_intro higet)]
      · rw [hfails]
        exact fun h => Bool.eq_false_iff.1 h.2 higet
      · rw [hroom, and_iff_left fun h => absurd hlink h]
        exact built_iff _ _ fun h => List.forall_mem_singleton.2 (inBuffer_copy h).2
    · refine ok_iff_of_error key ?_ (hfails.2 ⟨hlink, Bool.eq_false_iff.2 higet⟩)
      rw [run, hrun, LookupCall.doIt, if_neg (not_not_intro hlink), if_pos higet]
      show -errENOENT ≠ 0
      decide
  · refine ok_iff_of_ret key (buildFullnameFromParent c.dir.chars c.name ::
      if c.masterExists then [c.masterXname fi] else []) ?_ (fun h => hlink (hfails.1 h).1) ?_
    · rw [run, hrun, LookupCall.doIt, if_pos hlink]
    · rw [hroom, List.forall_mem_cons, inBuffer_build_iff, imp_iff_right hlink]
      refine and_congr_right fun _ => ?_
      cases c.masterExists with
      | false => simp
      | true =>
        rw [if_pos rfl, List.forall_mem_singleton, imp_iff_right rfl, LookupCall.masterXname]
        obtain ⟨hin, hlen⟩ := inBuffer_path c.xrootpath
        rw [inBuffer_strncat_iff hin, hlen]

/-- `iod_lookup` of a file that is not there, which may be created. -/
theorem noFile_ok_iff {c : LookupCall} (hfi : c.fileinfo = none)
    (hchk : (lxafsChkName c.name c.name.length).1 = 0)
    (hlen : c.alloc = true ∧ ¬ 254 < c.name.length)
    (hrun : c.iodLookup = match c.nameidata with
      | none => (0, [buildFullnameFromParent c.dir.chars c.name])
      | some nd =>
        if nd.create then (0, [buildFullnameFromParent c.dir.chars c.name])
        else (-errENOENT, [buildFullnameFromParent c.dir.chars c.name])) :
    (lookup c : PathOp κ).Ok key ↔
      (lookup c : PathOp κ).Fails key ∨ (lookup c : PathOp κ).Room := by
  have hroom : (∀ b ∈ [buildFullnameFromParent c.dir.chars c.name], InBuffer b) ↔
      (lookup c : PathOp κ).Room := by
    refine (built_singleton_iff ..).trans ?_
    exact (and_iff_left fun _ h => nomatch hfi.symm.trans h).symm
  have hfails : (lookup c : PathOp κ).Fails key ↔
      ∃ nd, c.nameidata = some nd ∧ nd.create = false := by
    simp [Fails, LookupCall.Refused, hfi, hchk, hlen]
  cases hnd : c.nameidata with
  | none =>
    refine ok_iff_of_ret key _ ?_ (fun h => ?_) hroom
    · rw [run, hrun, hnd]
    · obtain ⟨nd, h, -⟩ := hfails.1 h
      cases hnd.symm.trans h
  | some nd =>
    by_cases hcreate : nd.create = true
    · refine ok_iff_of_ret key _ ?_ (fun h => ?_) hroom
      · simp only [run, hrun, hnd, hcreate, if_true]
      · obtain ⟨nd', h, hno⟩ := hfails.1 h
        obtain rfl := Option.some.inj (hnd.symm.trans h)
        exact Bool.eq_false_iff.1 hno hcreate
    · refine ok_iff_of_error key ?_ (hfails.2 ⟨nd, hnd, Bool.eq_false_iff.2 hcreate⟩)
      simp only [run, hrun, hnd, if_neg hcreate]
      decide

/-- `iod_lookup` -/
theorem lookup_ok_iff (c : LookupCall) :
    (lookup c : PathOp κ).Ok key ↔
      (lookup c : PathOp κ).Fails key ∨ (lookup c : PathOp κ).Room := by
  by_cases halloc : c.alloc = true
  swap
  · refine ok_iff_of_error key ?_ (.inl (Bool.eq_false_iff.2 halloc))
    rw [run, LookupCall.iodLookup, if_pos halloc]
    show -errENOMEM ≠ 0
    decide
  by_cases hlen : 254 < c.name.length
  · have hchk := (chkName_tooLong_iff c.name c.name.length).2 hlen
    refine ok_iff_of_error key ?_ (.inr (.inl hlen))
    simp only [run, LookupCall.iodLookup, if_neg (not_not_intro halloc), if_pos hchk]
    decide
  have hlong := mt (chkName_tooLong_iff c.name c.name.length).1 hlen
  by_cases hchk : (lxafsChkName c.name c.name.length).1 = 0
  swap
  · -- a name that is not allowed gets a dentry without an inode
    refine ok_iff_of_ret key [buildFullnameFromParent c.dir.chars c.name] ?_ ?_ ?_
    · simp only [run, LookupCall.iodLookup, if_neg (not_not_intro halloc), if_neg hlong,
        if_pos hchk]
    · rintro (h | h | h)
      · exact Bool.eq_false_iff.1 h halloc
      · exact hlen h
      · exact hchk h.1
    · refine (built_singleton_iff ..).trans ?_
      exact (and_iff_left fun _ _ h => absurd h hchk).symm
  have hstart : c.iodLookup = match c.fileinfo, c.nameidata with
      | some fi, none => c.doIt (buildFullnameFromParent c.dir.chars c.name) fi
      | none, none => (0, [buildFullnameFromParent c.dir.chars c.name])
      | some fi, some nd =>
        if nd.create ∧ ¬ nd.trunc then
          (-errEEXIST, [buildFullnameFromParent c.dir.chars c.name])
        else c.doIt (buildFullnameFromParent c.dir.chars c.name) fi
      | none, some nd =>
        if nd.create then (0, [buildFullnameFromParent c.dir.chars c.name])
        else (-errENOENT, [buildFullnameFromParent c.dir.chars c.name]) := by
    simp only [LookupCall.iodLookup, if_neg (not_not_intro halloc), if_neg hlong,
      if_neg (not_not_intro hchk)]
  cases hfi : c.fileinfo with
  | some fi =>
    by_cases hexcl : ∃ nd, c.nameidata = some nd ∧ nd.create = true ∧ nd.trunc = false
    · refine ok_iff_of_error key ?_ (.inr (.inr ⟨hchk, ?_⟩))
      · obtain ⟨nd, hnd, hcreate, htrunc⟩ := hexcl
        have hif : nd.create = true ∧ ¬ nd.trunc = true := ⟨hcreate, Bool.eq_false_iff.1 htrunc⟩
        simp only [run, hstart, hfi, hnd, if_pos hif]
        decide
      · rw [LookupCall.Refused, hfi]
        exact .inl hexcl
    · refine doIt_ok_iff key hfi hchk ⟨halloc, hlen⟩ hexcl ?_
      rw [hstart, hfi]
      cases hnd : c.nameidata with
      | none => rfl
      | some nd =>
        exact if_neg fun h => hexcl ⟨nd, hnd, h.1, Bool.eq_false_iff.2 h.2⟩
  | none =>
    refine noFile_ok_iff key hfi hchk ⟨halloc, hlen⟩ ?_
    rw [hstart, hfi]
    cases c.nameidata <;> rfl

/-- The name of an inode after the new path has been copied over it. -/
theorem inBuffer_renamed {newname name : Bytes} (hnew : InBuffer newname) (hname : InBuffer name) :
    InBuffer (strncpy name newname lxMaxpath) ∧
      str (strncpy name newname lxMaxpath) = str newname := by
  have hstr : str (strncpy name newname lxMaxpath) = str newname := str_strncpy hnew.1
  refine ⟨⟨?_, ?_⟩, hstr⟩
  · rw [strlen, hstr]
    exact hnew.1
  · rw [length_strncpy]
    exact max_le hname.2 (Nat.le_refl _)

/-- The body of the loop over the inodes. -/
theorem inBuffer_renameChild_iff (oldname : Bytes) {newname : Bytes} (li : LxafsInodeInfo)
    (hnew : InBuffer newname) (hli : InBuffer li.name) :
    InBuffer (renameChild oldname newname li).name ↔
      (str oldname <+: str li.name →
        strlen newname + strlen li.name < lxMaxpath + strlen oldname) := by
  by_cases hpre : str oldname <+: str li.name
  · rw [imp_iff_right hpre, renameChild, if_pos ((strncmp_strlen ..).2 hpre)]
    dsimp only
    obtain ⟨hin, hstr⟩ := inBuffer_renamed hnew hli
    have hlen : strlen (strncpy li.name newname lxMaxpath) = strlen newname :=
      congrArg List.length hstr
    have htmp : strlen (strncpy [] (li.name.drop (strlen oldname)) lxMaxpath) =
        strlen li.name - strlen oldname := by
      rw [strlen, str_strncpy_drop hpre hli.1, List.length_drop, ← strlen]
    have hle : strlen oldname ≤ strlen li.name := hpre.length_le
    rw [inBuffer_strncat_iff hin, hlen, htmp]
    omega
  · rw [renameChild_of_not_isPrefix hpre]
    exact iff_of_true hli fun h => absurd h hpre

theorem forall_mem_iff_getElem? {α : Type} {l : List α} {P : α → Prop} :
    (∀ a ∈ l, P a) ↔ ∀ (j : ℕ) a, l[j]? = some a → P a := by
  simp only [List.mem_iff_getElem?, forall_exists_index]
  exact forall_comm

/-- The list after the rename of a file. -/
theorem getElem?_lxafsRename_file {inodes : List LxafsInodeInfo} {i : ℕ}
    {oldDir oldDentry newDir newDentry : Bytes} (hfile : ¬ inodes[i]?.any (·.isDir) = true)
    (j : ℕ) :
    (lxafsRename inodes i oldDir oldDentry newDir newDentry 0 0).2[j]? =
      inodes[j]?.map fun lj => if i = j then
        { lj with name := strncpy lj.name (buildFullnameFromParent newDir newDentry) lxMaxpath }
        else lj := by
  have hsame : (inodes.modify i fun li => { li with
      name := strncpy li.name (buildFullnameFromParent newDir newDentry) lxMaxpath })[i]?.any
        (·.isDir) = inodes[i]?.any (·.isDir) := by
    rw [List.getElem?_modify_eq]
    cases inodes[i]? <;> rfl
  simp only [lxafsRename, ne_eq, not_true_eq_false, if_false]
  rw [if_neg (hsame ▸ hfile)]
  exact List.getElem?_modify ..

/-- The names of the inodes after the rename of a directory, or of a file. -/
theorem renamed_inBuffer_iff {c : RenameCall} (hnew : InBuffer c.newname) :
    (∀ li ∈ (lxafsRename c.inodes c.place c.oldDir.chars c.oldDentry c.newDir.chars c.newDentry
      0 0).2, InBuffer li.name) ↔
      (c.inodes[c.place]?.any (·.isDir) → ∀ j li, c.inodes[j]? = some li →
        str c.oldname <+: (if c.place = j then str c.newname else str li.name) →
        c.newDir.joinLength c.newDentry +
          (if c.place = j then c.newDir.joinLength c.newDentry else strlen li.name) <
            lxMaxpath + c.oldDir.joinLength c.oldDentry) := by
  have hlen := (c.newDir.build_lengths c.newDentry).1
  have hlen' := (c.oldDir.build_lengths c.oldDentry).1
  rw [forall_mem_iff_getElem?]
  by_cases hdir : c.inodes[c.place]?.any (·.isDir) = true
  · rw [imp_iff_right hdir]
    obtain ⟨li, hi, hli⟩ := (Option.any_eq_true ..).1 hdir
    refine forall_congr' fun j => ?_
    rw [getElem?_lxafsRename hi hli rfl rfl]
    cases hj : c.inodes[j]? with
    | none => simp
    | some lj =>
      have hin := c.inBuffer lj (List.mem_of_getElem? hj)
      simp only [Option.map_some, Option.some.injEq, forall_eq']
      by_cases hplace : c.place = j
      · obtain ⟨hin', hstr⟩ := inBuffer_renamed hnew hin
        simp only [if_pos hplace]
        have hchild := inBuffer_renameChild_iff c.oldname
          { lj with name := strncpy lj.name c.newname lxMaxpath } hnew hin'
        have hcopy : strlen (strncpy lj.name c.newname lxMaxpath) = strlen c.newname :=
          congrArg List.length hstr
        rw [hstr, hcopy, RenameCall.newname, RenameCall.oldname, hlen, hlen'] at hchild
        exact hchild
      · simp only [if_neg hplace]
        refine (inBuffer_renameChild_iff c.oldname lj hnew hin).trans ?_
        rw [RenameCall.newname, RenameCall.oldname, hlen, hlen']
  · refine iff_of_true (fun j li hj => ?_) fun h => absurd h hdir
    rw [getElem?_lxafsRename_file hdir, Option.map_eq_some_iff] at hj
    obtain ⟨lj, hlj, rfl⟩ := hj
    have hin := c.inBuffer lj (List.mem_of_getElem? hlj)
    split_ifs
    · exact (inBuffer_renamed hnew hin).1
    · exact hin

/-- `lxafs_rename` -/
theorem rename_ok_iff (c : RenameCall) :
    (rename c : PathOp κ).Ok key ↔
      (rename c : PathOp κ).Fails key ∨ (rename c : PathOp κ).Room := by
  by_cases hfail : c.alloc ≠ 0 ∨ c.err ≠ 0
  · exact ok_iff_of_error key (lxafsRename_of_err hfail ..).2 hfail
  obtain ⟨halloc, herr⟩ := not_or.1 hfail
  rw [not_not] at halloc herr
  have hret : (lxafsRename c.inodes c.place c.oldDir.chars c.oldDentry c.newDir.chars c.newDentry
      0 0).1 = 0 := by
    simp only [lxafsRename]
    split_ifs <;> rfl
  refine ok_iff_of_ret key ([c.oldname, c.newname] ++ (lxafsRename c.inodes c.place
    c.oldDir.chars c.oldDentry c.newDir.chars c.newDentry 0 0).2.map (·.name)) ?_ hfail ?_
  · rw [run, RenameCall.run, halloc, herr, hret, if_pos rfl]
  rw [List.cons_append, List.forall_mem_cons, List.cons_append, List.forall_mem_cons,
    List.nil_append, List.forall_mem_map, RenameCall.oldname, RenameCall.newname,
    inBuffer_build_iff, inBuffer_build_iff]
  refine and_congr_right fun hold => and_congr_right fun hnew => ?_
  rw [← inBuffer_build_iff] at hnew
  exact renamed_inBuffer_iff hnew

/-- **A call stays within its buffers**, or returns an error, if and only if one of its steps fails
or there is room for every path. -/
theorem ok_iff (op : PathOp κ) : op.Ok key ↔ op.Fails key ∨ op.Room := by
  cases op with
  | create c s => exact create_ok_iff key c s
  | lookup c => exact lookup_ok_iff key c
  | link c => exact link_ok_iff key c
  | mkdir c s => exact mkdir_ok_iff key c s
  | rename c => exact rename_ok_iff key c

/-- The file with a name of 100 characters is created in a directory whose path has 200, and no step
fails. -/
def longPath : CreateCall where
  dir := ⟨List.replicate 200 97, by decide +kernel, by decide +kernel⟩
  name := List.replicate 100 98
  noNul := by decide +kernel
  alloc := true
  newInode := true
  rc := 0
  fileinfo := some .reg

/-- It overruns the buffer. -/
theorem not_ok_longPath : ¬ (create longPath CreateOp.emptyFs).Ok id := by
  have hchk : longPath.chkName = 0 := by decide +kernel
  rw [create_ok_iff]
  rintro ((h | h | ⟨-, h⟩) | h)
  · exact absurd h (by decide)
  · exact h hchk
  · exact h ⟨rfl, rfl⟩
  · have hlong : ¬ longPath.dir.joinLength longPath.name < lxMaxpath := by decide +kernel
    exact hlong h

end PathOp

end LxApi32
