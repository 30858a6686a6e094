import LxApi32.Kernel.Errno
import LxApi32.Lxafs.Dentry
import LxApi32.Lxafs.OpenDir

/-!
# Creating files and directories

`iod_create` and `iod_mkdir` build the path of the new entry, check its name, create the inode and
the file or directory of the host, and bind the inode to the dentry.  `iod_create` uses one variable
for the results of these steps, and the check of the name leaves 0 there; `iod_mkdir` creates the
directory before the inode, and returns without freeing its buffer if the name is refused.

* `built_length_iff` : the buffers hold the path exactly if that is short enough.
* `allOrNothing_iff` : a call does its work or leaves everything as it was exactly if the path fits
  and, in `iod_create`, a name that is accepted gets an inode, in `iod_mkdir`, the name is accepted
  and a directory that is created gets an inode.
-/

namespace LxApi32

open CString

/-- A file or directory that is to be created, and what the functions answer that are called for
it. -/
structure CreateCall where
  /-- `linkinfo.name` of the inode of the directory -/
  dir : PathName
  /-- `d_name` of the dentry: the name, of `len` bytes -/
  name : Bytes
  /-- The name is a string. -/
  noNul : NoNul name
  /-- `kmalloc` has memory for `fullname`. -/
  alloc : Bool
  /-- `new_inode` delivers an inode. -/
  newInode : Bool
  /-- `SecHlpOpen` or `LX_DOSCREATEDIR`, if there is no such file or directory. -/
  rc : ULONG
  /-- The type in what `lxafs_get_fullfileinfo` delivers. -/
  fileinfo : Option DirentType

/-- An inode that has been created. -/
structure NewInode where
  /-- `linkinfo.name` -/
  name : Bytes
  /-- The operations that it has got. -/
  type : Option DirentType
  /-- `i_nlink` -/
  nlink : ULONG
  deriving DecidableEq, Repr

/-- What a call may change; `κ` are the names under which the host finds its files. -/
structure CreateState (κ : Type) where
  /-- The files and directories of the host. -/
  host : κ → Option DirentType
  /-- `i_nlink` of the directory -/
  nlink : ULONG
  /-- The number of inodes of the file system. -/
  inodes : ℕ
  /-- The number of buffers that have been allocated and not freed. -/
  buffers : ℕ

/-- What a call leaves. -/
structure CreateRun (κ : Type) where
  /-- What it returns. -/
  ret : ℤ
  /-- The inode that has been bound to the dentry. -/
  dentry : Option NewInode
  /-- The state. -/
  state : CreateState κ
  /-- The buffers that a path has been written to, as long as they are then. -/
  built : List Bytes

namespace CreateState

variable {κ : Type}

/-- `kmalloc` -/
def kmalloc (s : CreateState κ) : CreateState κ := { s with buffers := s.buffers + 1 }

/-- `kfree` -/
def kfree (s : CreateState κ) : CreateState κ := { s with buffers := s.buffers - 1 }

/-- `new_inode` -/
def newInode (s : CreateState κ) : CreateState κ := { s with inodes := s.inodes + 1 }

/-- `iput` of an inode that is not in use -/
def iput (s : CreateState κ) : CreateState κ := { s with inodes := s.inodes - 1 }

end CreateState

namespace CreateCall

variable {κ : Type} [DecidableEq κ] (key : Bytes → κ)

/-- `fullname`, as `lxafs_build_fullname_from_parent_i` leaves it. -/
def fullname (c : CreateCall) : Bytes := buildFullnameFromParent c.dir.chars c.name

/-- `linkinfo.name` of a fresh inode. -/
def emptyName : Bytes := List.replicate lxMaxpath 0

/-- `lxafs_create_file` or `LX_DOSCREATEDIR`: they fail if there is something with this name. -/
def createObject (c : CreateCall) (type : DirentType) (existsRc : ULONG) (s : CreateState κ) :
    ULONG × CreateState κ :=
  if c.rc ≠ 0 then (c.rc, s)
  else if (s.host (key (str c.fullname))).isSome then (existsRc, s)
  else (0, { s with host := Function.update s.host (key (str c.fullname)) (some type) })

/-- The result of `lxafs_chk_name`. -/
def chkName (c : CreateCall) : ℤ := (lxafsChkName c.name c.name.length).1

/-- `iod_create` -/
def iodCreate (c : CreateCall) (s : CreateState κ) : CreateRun κ :=
  if ¬ c.alloc then ⟨-errENOMEM, none, s, []⟩
  else
    let s := s.kmalloc
    let err := c.chkName
    if err ≠ 0 then
      ⟨if err = -errENOENT then negEINVAL else err, none, s.kfree, [c.fullname]⟩
    -- `err` is still what the check of the name has returned
    else if ¬ c.newInode then ⟨err, none, s.kfree, [c.fullname]⟩
    else
      let created := c.createObject key .reg 110 s.newInode
      if created.1 ≠ 0 then
        ⟨created.1.toInt, none, created.2.iput.kfree, [c.fullname, strcpy emptyName c.fullname]⟩
      else
        ⟨0, some ⟨str (strcpy emptyName c.fullname), c.fileinfo, 1⟩, created.2.kfree,
          [c.fullname, strcpy emptyName c.fullname]⟩

/-- `iod_mkdir` -/
def iodMkdir (c : CreateCall) (s : CreateState κ) : CreateRun κ :=
  if ¬ c.alloc then ⟨-errENOMEM, none, s, []⟩
  else
    let s := s.kmalloc
    let err := c.chkName
    if err ≠ 0 then ⟨if err = -errENOENT then negEINVAL else err, none, s, []⟩
    else
      let created := c.createObject key .dir 5 s
      if created.1 ≠ 0 then ⟨-errENOENT, none, created.2.kfree, [c.fullname]⟩
      else if ¬ c.newInode then ⟨-errENOENT, none, created.2.kfree, [c.fullname]⟩
      else
        ⟨0, some ⟨str (strncpy emptyName c.fullname lxMaxpath), some .dir, 2⟩,
          { created.2.newInode.kfree with nlink := created.2.nlink + 1 },
          [c.fullname, strncpy emptyName c.fullname lxMaxpath]⟩

end CreateCall

/-- The two calls. -/
inductive CreateOp
  /-- `iod_create` -/
  | create
  /-- `iod_mkdir` -/
  | mkdir
  deriving DecidableEq, Repr

namespace CreateOp

variable {κ : Type} [DecidableEq κ] (key : Bytes → κ)

/-- The call. -/
def run (c : CreateCall) (s : CreateState κ) : CreateOp → CreateRun κ
  | create => c.iodCreate key s
  | mkdir => c.iodMkdir key s

/-- The path of the new entry. -/
def path (c : CreateCall) : Bytes := str c.fullname

/-- Nothing is written past the end of a buffer; 0 is returned exactly if the dentry has a new inode
for a file or directory that is there; and an error leaves everything as it was. -/
def AllOrNothing (c : CreateCall) (s : CreateState κ) (r : CreateRun κ) : Prop :=
  (∀ b ∈ r.built, b.length ≤ lxMaxpath) ∧
  (r.ret = 0 ↔ ∃ i, r.dentry = some i ∧ i.name = path c ∧ (r.state.host (key i.name)).isSome) ∧
  (r.ret ≠ 0 → r.state = s)

/-- The name is accepted by `lxafs_chk_name`. -/
def Accepted (c : CreateCall) : Prop := Qstr.Accepted ⟨c.name, c.name.length, le_rfl⟩

/-- There is room for the path. -/
def Room (c : CreateCall) : Prop := c.dir.joinLength c.name < lxMaxpath

/-- The path has room in its buffer; a name that is accepted gets an inode; `iod_mkdir` is called
for names that are accepted only, and a directory that it creates gets an inode. -/
def Careful (c : CreateCall) (s : CreateState κ) : CreateOp → Prop
  | create => c.alloc → Room c ∧ (Accepted c → c.newInode)
  | mkdir => c.alloc → Accepted c ∧ Room c ∧ (c.rc = 0 ∧ s.host (key (path c)) = none → c.newInode)

/-! ### The steps -/

variable {key} {c : CreateCall} {s : CreateState κ}

theorem built_length_iff (c : CreateCall) :
    (c.fullname.length ≤ lxMaxpath ↔ Room c) ∧
    ((strcpy CreateCall.emptyName c.fullname).length ≤ lxMaxpath ↔ Room c) ∧
    (strncpy CreateCall.emptyName c.fullname lxMaxpath).length ≤ lxMaxpath := by
  obtain ⟨hstr, hlen⟩ := c.dir.build_lengths c.name
  have hempty : CreateCall.emptyName.length = lxMaxpath := List.length_replicate
  rw [length_strcpy, length_strncpy, hempty, CreateCall.fullname, hstr, hlen, Room]
  omega

/-- The inode has the path of the entry. -/
theorem str_linkinfoName (hroom : Room c) :
    str (strcpy CreateCall.emptyName c.fullname) = path c ∧
      str (strncpy CreateCall.emptyName c.fullname lxMaxpath) = path c := by
  refine ⟨str_append_zero (noNul_str _) _, str_strncpy ?_⟩
  rw [CreateCall.fullname, (c.dir.build_lengths c.name).1]
  exact hroom

/-- There is a new file or directory, or an error. -/
theorem createObject_cases (key : Bytes → κ) (c : CreateCall) (type : DirentType) (existsRc : ULONG)
    (hrc : existsRc ≠ 0) (s : CreateState κ) :
    (c.rc = 0 ∧ s.host (key (path c)) = none) ∧ c.createObject key type existsRc s =
        (0, { s with host := Function.update s.host (key (path c)) (some type) }) ∨
      ¬ (c.rc = 0 ∧ s.host (key (path c)) = none) ∧
        (c.createObject key type existsRc s).1 ≠ 0 ∧
        (c.createObject key type existsRc s).2 = s := by
  unfold CreateCall.createObject
  split_ifs with hopen hsome
  · exact .inr ⟨fun h => hopen h.1, hopen, rfl⟩
  · exact .inr ⟨fun h => by rw [path] at h; simp [h.2] at hsome, hrc, rfl⟩
  · exact .inl ⟨⟨not_not.1 hopen, Option.not_isSome_iff_eq_none.1 hsome⟩, rfl⟩

/-- An error of the check of the name is an error of the call. -/
theorem chkName_error (h : c.chkName ≠ 0) :
    (if c.chkName = -errENOENT then negEINVAL else c.chkName) ≠ 0 := by
  split_ifs
  · decide
  · exact h

/-! ### The calls -/

/-- What `iod_create` comes to. -/
inductive CreateEnds (key : Bytes → κ) (c : CreateCall) (s : CreateState κ) : CreateRun κ → Prop
  /-- There is no memory for the path. -/
  | noMemory (halloc : c.alloc = false) : CreateEnds key c s ⟨-errENOMEM, none, s, []⟩
  /-- The name is refused. -/
  | refused (halloc : c.alloc = true) (hname : ¬ Accepted c) {e : ℤ} (he : e ≠ 0) :
      CreateEnds key c s ⟨e, none, s, [c.fullname]⟩
  /-- There is no inode, and 0 is returned. -/
  | noInode (halloc : c.alloc = true) (hname : Accepted c) (hnew : c.newInode = false) :
      CreateEnds key c s ⟨0, none, s, [c.fullname]⟩
  /-- There is no file. -/
  | noObject (halloc : c.alloc = true) (hname : Accepted c) (hnew : c.newInode = true)
      (hnot : ¬ (c.rc = 0 ∧ s.host (key (path c)) = none)) {e : ℤ} (he : e ≠ 0) :
      CreateEnds key c s ⟨e, none, s, [c.fullname, strcpy CreateCall.emptyName c.fullname]⟩
  /-- There is a file with an inode. -/
  | done (halloc : c.alloc = true) (hname : Accepted c) (hnew : c.newInode = true)
      (hcreates : c.rc = 0 ∧ s.host (key (path c)) = none) :
      CreateEnds key c s ⟨0, some ⟨str (strcpy CreateCall.emptyName c.fullname), c.fileinfo, 1⟩,
        { s with
          host := Function.update s.host (key (path c)) (some .reg)
          inodes := s.inodes + 1 },
        [c.fullname, strcpy CreateCall.emptyName c.fullname]⟩

theorem iodCreate_ends (key : Bytes → κ) (c : CreateCall) (s : CreateState κ) :
    CreateEnds key c s (c.iodCreate key s) := by
  unfold CreateCall.iodCreate
  dsimp only
  by_cases halloc : c.alloc = true
  swap
  · rw [if_pos halloc]
    exact .noMemory (Bool.eq_false_iff.2 halloc)
  rw [if_neg (not_not_intro halloc)]
  by_cases hchk : c.chkName = 0
  swap
  · rw [if_pos hchk]
    exact .refused halloc hchk (chkName_error hchk)
  rw [if_neg (not_not_intro hchk), hchk]
  by_cases hnew : c.newInode = true
  swap
  · rw [if_pos hnew]
    exact .noInode halloc hchk (Bool.eq_false_iff.2 hnew)
  rw [if_neg (not_not_intro hnew)]
  rcases createObject_cases key c .reg 110 (by decide) s.kmalloc.newInode with
    ⟨hcreates, hcreated⟩ | ⟨hnot, hrc, hsame⟩
  · rw [hcreated, if_neg (not_not_intro rfl)]
    exact .done halloc hchk hnew hcreates
  · have hret : (c.createObject key .reg 110 s.kmalloc.newInode).1.toInt ≠ 0 := fun h =>
      hrc (BitVec.toInt_inj.1 (h.trans BitVec.toInt_zero.symm))
    rw [if_pos hrc, hsame]
    exact .noObject (s := s) halloc hchk hnew hnot hret

/-- What `iod_mkdir` comes to. -/
inductive MkdirEnds (key : Bytes → κ) (c : CreateCall) (s : CreateState κ) : CreateRun κ → Prop
  /-- There is no memory for the path. -/
  | noMemory (halloc : c.alloc = false) : MkdirEnds key c s ⟨-errENOMEM, none, s, []⟩
  /-- The name is refused, and the buffer is not freed. -/
  | refused (halloc : c.alloc = true) (hname : ¬ Accepted c) {e : ℤ} (he : e ≠ 0) :
      MkdirEnds key c s ⟨e, none, s.kmalloc, []⟩
  /-- There is no directory. -/
  | noObject (halloc : c.alloc = true) (hname : Accepted c)
      (hnot : ¬ (c.rc = 0 ∧ s.host (key (path c)) = none)) :
      MkdirEnds key c s ⟨-errENOENT, none, s, [c.fullname]⟩
  /-- There is no inode for the directory, which stays. -/
  | noInode (halloc : c.alloc = true) (hname : Accepted c)
      (hcreates : c.rc = 0 ∧ s.host (key (path c)) = none) (hnew : c.newInode = false) :
      MkdirEnds key c s ⟨-errENOENT, none,
        { s with host := Function.update s.host (key (path c)) (some .dir) }, [c.fullname]⟩
  /-- There is a directory with an inode. -/
  | done (halloc : c.alloc = true) (hname : Accepted c)
      (hcreates : c.rc = 0 ∧ s.host (key (path c)) = none) (hnew : c.newInode = true) :
      MkdirEnds key c s ⟨0,
        some ⟨str (strncpy CreateCall.emptyName c.fullname lxMaxpath), some .dir, 2⟩,
        { s with
          host := Function.update s.host (key (path c)) (some .dir)
          nlink := s.nlink + 1
          inodes := s.inodes + 1 },
        [c.fullname, strncpy CreateCall.emptyName c.fullname lxMaxpath]⟩

theorem iodMkdir_ends (key : Bytes → κ) (c : CreateCall) (s : CreateState κ) :
    MkdirEnds key c s (c.iodMkdir key s) := by
  unfold CreateCall.iodMkdir
  dsimp only
  by_cases halloc : c.alloc = true
  swap
  · rw [if_pos halloc]
    exact .noMemory (Bool.eq_false_iff.2 halloc)
  rw [if_neg (not_not_intro halloc)]
  by_cases hchk : c.chkName = 0
  swap
  · rw [if_pos hchk]
    exact .refused halloc hchk (chkName_error hchk)
  rw [if_neg (not_not_intro hchk)]
  rcases createObject_cases key c .dir 5 (by decide) s.kmalloc with
    ⟨hcreates, hcreated⟩ | ⟨hnot, hrc, hsame⟩
  · rw [hcreated, if_neg (not_not_intro rfl)]
    by_cases hnew : c.newInode = true
    · rw [if_neg (not_not_intro hnew)]
      exact .done halloc hchk hcreates hnew
    · rw [if_pos hnew]
      exact .noInode halloc hchk hcreates (Bool.eq_false_iff.2 hnew)
  · rw [if_pos hrc, hsame]
    exact .noObject halloc hchk hnot

omit [DecidableEq κ] in
/-- A call that fails and binds no inode. -/
theorem allOrNothing_failed_iff {ret : ℤ} {s' : CreateState κ} {built : List Bytes}
    (hret : ret ≠ 0) : AllOrNothing key c s ⟨ret, none, s', built⟩ ↔
      (∀ b ∈ built, b.length ≤ lxMaxpath) ∧ s' = s := by
  have hno : ¬ ∃ i, (none : Option NewInode) = some i ∧ i.name = path c ∧
      (s'.host (key i.name)).isSome := fun ⟨i, h, _⟩ => nomatch h
  exact and_congr_right fun _ => ⟨fun h => h.2 hret, fun h => ⟨iff_of_false hret hno, fun _ => h⟩⟩

omit [DecidableEq κ] in
/-- A call that binds an inode for what is there. -/
theorem allOrNothing_done_iff {i : NewInode} {s' : CreateState κ} {built : List Bytes}
    (hname : Room c → i.name = path c) (hhost : (s'.host (key (path c))).isSome)
    (hbuilt : (∀ b ∈ built, b.length ≤ lxMaxpath) ↔ Room c) :
    AllOrNothing key c s ⟨0, some i, s', built⟩ ↔ Room c := by
  refine ⟨fun h => hbuilt.1 h.1, fun hroom => ⟨hbuilt.2 hroom, ?_, fun h => absurd rfl h⟩⟩
  exact iff_of_true rfl ⟨i, rfl, hname hroom, by rw [hname hroom]; exact hhost⟩

theorem create_allOrNothing_iff (key : Bytes → κ) (c : CreateCall) (s : CreateState κ) :
    AllOrNothing key c s (c.iodCreate key s) ↔ create.Careful key c s := by
  obtain ⟨hfull, hcopy, -⟩ := built_length_iff c
  have hends := iodCreate_ends key c s
  generalize c.iodCreate key s = r at hends ⊢
  cases hends with
  | noMemory halloc =>
    rw [allOrNothing_failed_iff (by decide)]
    exact iff_of_true ⟨nofun, rfl⟩ fun h => absurd h (Bool.eq_false_iff.1 halloc)
  | refused halloc hname he =>
    rw [allOrNothing_failed_iff he, List.forall_mem_singleton, hfull, Careful,
      imp_iff_right halloc]
    exact and_congr_right fun _ => iff_of_true rfl fun h => absurd h hname
  | noInode halloc hname hnew =>
    refine iff_of_false ?_ fun h => Bool.eq_false_iff.1 hnew ((h halloc).2 hname)
    rintro ⟨-, hret, -⟩
    obtain ⟨i, hi, -⟩ := hret.1 rfl
    cases hi
  | noObject halloc hname hnew hnot he =>
    rw [allOrNothing_failed_iff he, List.forall_mem_cons, List.forall_mem_singleton, hfull, hcopy,
      and_self, Careful, imp_iff_right halloc, and_iff_left rfl, and_iff_left fun _ => hnew]
  | done halloc hname hnew =>
    rw [Careful, imp_iff_right halloc, and_iff_left fun _ => hnew]
    refine allOrNothing_done_iff (fun hroom => (str_linkinfoName hroom).1) ?_ ?_
    · simp only [Function.update_self, Option.isSome_some]
    · rw [List.forall_mem_cons, List.forall_mem_singleton, hfull, hcopy, and_self]

theorem mkdir_allOrNothing_iff (key : Bytes → κ) (c : CreateCall) (s : CreateState κ) :
    AllOrNothing key c s (c.iodMkdir key s) ↔ mkdir.Careful key c s := by
  obtain ⟨hfull, -, hcopy⟩ := built_length_iff c
  have hends := iodMkdir_ends key c s
  generalize c.iodMkdir key s = r at hends ⊢
  cases hends with
  | noMemory halloc =>
    rw [allOrNothing_failed_iff (by decide)]
    exact iff_of_true ⟨nofun, rfl⟩ fun h => absurd h (Bool.eq_false_iff.1 halloc)
  | refused halloc hname he =>
    rw [allOrNothing_failed_iff he]
    refine iff_of_false (fun h => ?_) fun h => hname (h halloc).1
    have hbuffers : s.buffers + 1 = s.buffers := congrArg CreateState.buffers h.2
    omega
  | noObject halloc hname hnot =>
    rw [allOrNothing_failed_iff (by decide), List.forall_mem_singleton, hfull, Careful,
      imp_iff_right halloc, and_iff_right hname]
    exact and_congr_right fun _ => iff_of_true rfl fun h => absurd h hnot
  | noInode halloc hname hcreates hnew =>
    rw [allOrNothing_failed_iff (by decide)]
    refine iff_of_false (fun h => ?_) fun h =>
      Bool.eq_false_iff.1 hnew ((h halloc).2.2 hcreates)
    have hhost := congrFun (congrArg CreateState.host h.2) (key (path c))
    simp only [Function.update_self] at hhost
    cases hhost.trans hcreates.2
  | done halloc hname hcreates hnew =>
    rw [Careful, imp_iff_right halloc, and_iff_right hname, and_iff_left fun _ => hnew]
    refine allOrNothing_done_iff (fun hroom => (str_linkinfoName hroom).2) ?_ ?_
    · simp only [Function.update_self, Option.isSome_some]
    · rw [List.forall_mem_cons, List.forall_mem_singleton, hfull, and_iff_left hcopy]

/-- **Creating a file or a directory** is all or nothing if and only if the path fits and no step is
left half done. -/
theorem allOrNothing_iff (key : Bytes → κ) (c : CreateCall) (s : CreateState κ) (op : CreateOp) :
    AllOrNothing key c s (op.run key c s) ↔ op.Careful key c s := by
  cases op with
  | create => exact create_allOrNothing_iff key c s
  | mkdir => exact mkdir_allOrNothing_iff key c s

/-- The file `f` is created in the directory `C:`, and there is no memory for its inode. -/
def noInode : CreateCall where
  dir := ⟨rootName, noNul_rootName, length_rootName_lt⟩
  name := [102]
  noNul := by decide
  alloc := true
  newInode := false
  rc := 0
  fileinfo := none

/-- An empty file system. -/
def emptyFs : CreateState Bytes := ⟨fun _ => none, 2, 1, 0⟩

/-- `iod_create` returns 0, and the dentry has no inode. -/
theorem not_allOrNothing_noInode :
    ¬ AllOrNothing id noInode emptyFs (create.run id noInode emptyFs) := by
  rintro ⟨-, hret, -⟩
  have hdentry : (create.run id noInode emptyFs).dentry = none := by decide
  obtain ⟨i, hi, -⟩ := hret.1 (by decide)
  cases hdentry.symm.trans hi

end CreateOp

end LxApi32
