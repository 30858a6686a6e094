import LxApi32.Lxafs.LinkCorrection

/-!
# Hard links

The host file systems have no hard links.  An inode of lxafs has a master name, under which the
host stores the file, and a list of further names; for each of these the host has a dummy file with
the attribute `LX_LT`.  `iod_link` creates such a dummy file and adds its name to the list.
`iod_unlink` of a name of the list deletes the dummy file.  `iod_unlink` of the master name copies
the file over the last dummy file of the list, deletes it, and makes that name the master name.

The results of the host and of `path_lookup` are arguments.  Which host file a path designates is
the parameter `key`, so that paths may differ and designate the same file.

* `iodUnlink_dataKept_iff` : unlinking keeps the data exactly if the copy that a deleted master name
  leaves behind is complete; `iod_unlink` does not look at the result of `LX_DOSCOPY`.
* `failed_unchanged_iff` : a call that fails changes nothing, except when `iod_unlink` has already
  copied the file or taken the name off the list, and then the host does not delete the file.
-/

namespace LxApi32

open CString

/-- `-EPERM` -/
def negEPERM : ULONG := -1

/-- `-EACCES` -/
def negEACCES : ULONG := -13

/-- `-EBUSY` -/
def negEBUSY : ULONG := -16

/-- `-EMLINK` -/
def negEMLINK : ULONG := -31

/-! ### The host -/

/-- A file of the host. -/
structure HostFile where
  /-- Its contents. -/
  contents : Bytes
  /-- Its extended attributes. -/
  ea : EaName → Option Bytes

/-- The files of the host. -/
abbrev Host (κ : Type) := κ → Option HostFile

/-- What `DosCopy` answers.  When it fails, `left` is what stands at the target then. -/
inductive CopyResult
  /-- The file is copied. -/
  | done
  /-- It is not. -/
  | failed (rc : ULONG) (left : Option HostFile)

/-- What stands at the target after a copy of the file `src`. -/
def CopyResult.target (src : Option HostFile) : CopyResult → Option HostFile
  | .done => src
  | .failed _ left => left

/-- What the host does in `lxafs_write_linkchild_info`. -/
structure ChildResult where
  /-- `SecHlpOpen` opens the file, if it is there. -/
  opened : Bool
  /-- `kmalloc` has memory for the text. -/
  alloc : Bool
  /-- The number of bytes that `SecHlpWrite` writes. -/
  written : ℕ
  /-- The attribute is written. -/
  eaWritten : Bool
  deriving DecidableEq

/-- The text of `lxafs_dummy_msg` for a link to the file `s`. -/
def lxafsDummyMsg (s : Bytes) : Bytes :=
  ("# This is a dummy file representing a link. Do not edit contents or EAs!\n# S:".toList.map
    fun c => UInt8.ofNat c.toNat) ++ s ++ [10]

namespace Host

variable {κ : Type} [DecidableEq κ] (key : PathName → κ)

/-- `LX_DOSCOPY` -/
def dosCopy (src dst : PathName) (r : CopyResult) (h : Host κ) : ULONG × Host κ :=
  (match r with
    | .done => 0
    | .failed rc _ => rc,
    Function.update h (key dst) (r.target (h (key src))))

/-- `LX_DOSDELETE` -/
def dosDelete (name : PathName) (rc : ULONG) (h : Host κ) : ULONG × Host κ :=
  (rc, if rc = 0 then Function.update h (key name) none else h)

/-- `LX_DOSDELETEDIR` -/
def dosDeleteDir (name : PathName) (rc : ULONG) (h : Host κ) : ULONG × Host κ :=
  dosDelete key name rc h

/-- `LX_EADELETE`; `done` says whether the daemon finds the attribute and deletes it. -/
def eaDelete (name : PathName) (ea : EaName) (done : Bool) (h : Host κ) : Host κ :=
  if done then
    Function.update h (key name)
      ((h (key name)).map fun f => { f with ea := Function.update f.ea ea none })
  else h

/-- `lxafs_create_file`: it fails if the file exists. -/
def createFile (name : PathName) (rc : ULONG) (h : Host κ) : ULONG × Host κ :=
  if rc ≠ 0 then (rc, h)
  else if (h (key name)).isSome then (110, h)
  else (0, Function.update h (key name) (some ⟨[], fun _ => none⟩))

/-- `lxafs_write_linkchild_info`: the file `fname`, if it exists, is replaced. -/
def writeLinkchildInfo (fname linkmaster : PathName) (r : ChildResult) (h : Host κ) :
    ULONG × Host κ :=
  if r.opened ∧ (h (key fname)).isSome then
    let contents := if r.alloc then (lxafsDummyMsg linkmaster.chars).take r.written else []
    let ea : EaName → Option Bytes :=
      if r.eaWritten then Function.update (fun _ => none) .linkedTo (some linkmaster.chars)
      else fun _ => none
    (0, Function.update h (key fname) (some ⟨contents, ea⟩))
  else (1, h)

/-- The loop of `iod_unlink` over the remaining names. -/
def rewriteChilds (linkmaster : PathName) (r : PathName → ChildResult) (l : List PathName)
    (h : Host κ) : Host κ :=
  l.foldl (fun h lfo => (writeLinkchildInfo key lfo linkmaster (r lfo) h).2) h

end Host

/-! ### The inode -/

/-- `LXAFS_DIRTY_LINKLIST` -/
def lxafsDirtyLinklist : ULONG := 1

/-- What links need of `struct inode` and `struct lxafs_inode_info`. -/
structure LinkedInode where
  /-- `i_nlink` -/
  nlink : ULONG
  /-- `i_count` -/
  count : ℤ
  /-- `S_ISDIR(i_mode)` -/
  isDir : Bool
  /-- `linkinfo.name` -/
  name : PathName
  /-- The names in `linkinfo.list`. -/
  list : List PathName
  /-- `dirty_flag` -/
  dirtyFlag : ULONG
  deriving DecidableEq

namespace LinkedInode

/-- The master name and the names of the list. -/
def names (i : LinkedInode) : List PathName := i.name :: i.list

/-- `lxafs_mark_inode_dirty` -/
def markDirty (i : LinkedInode) (flags : ULONG) : LinkedInode :=
  { i with dirtyFlag := i.dirtyFlag ||| flags }

/-- `lxafs_add_linkinfo` -/
def addLinkinfo (i : LinkedInode) (linkinfo : PathName) (tail : Bool) : ULONG × LinkedInode :=
  if ∃ lfo ∈ i.list, strncmp lfo.chars linkinfo.chars lxMaxpath = 0 then (negEBUSY, i)
  else (0, { i with list := if tail then i.list ++ [linkinfo] else linkinfo :: i.list })

end LinkedInode

/-- What `path_lookup` finds under the master name. -/
inductive PathLookup
  /-- It fails. -/
  | failed (rc : ULONG)
  /-- A dentry without an inode. -/
  | negative
  /-- A dentry with another inode. -/
  | otherInode
  /-- The inode. -/
  | theInode
  deriving DecidableEq

/-- `lxafs_attach_linked_file`, as far as the inode is concerned.  `alloc` is the result of
`lxafs_alloc_linkinfo`. -/
def lxafsAttachLinkedFile (lookup : PathLookup) (alloc : Bool) (link : PathName)
    (i : LinkedInode) : ULONG × LinkedInode :=
  match lookup with
  | .failed rc => (rc, i)
  | .negative | .otherInode => (0, i)
  | .theInode =>
    if alloc then
      let r := i.addLinkinfo link false
      (0, if r.1 ≠ 0 then i else r.2.markDirty lxafsDirtyLinklist)
    else (0, i)

/-- `lxafs_detach_linked_file`, as far as the inode is concerned. -/
def lxafsDetachLinkedFile (lookup : PathLookup) (link : PathName) (i : LinkedInode) :
    ULONG × LinkedInode :=
  match lookup with
  | .failed rc => (rc, i)
  | .negative | .otherInode => (negENOENT, i)
  | .theInode =>
    if ∃ lfo ∈ i.list, strncmp lfo.chars link.chars lxMaxpath = 0 then
      let list := i.list.eraseP fun lfo => strncmp lfo.chars link.chars lxMaxpath = 0
      (0, { i with list }.markDirty lxafsDirtyLinklist)
    else (negENOENT, i)

/-! ### The directory entries -/

/-- `DNAME_INLINE_LEN` -/
def dnameInlineLen : ℕ := 24

/-- A dentry and its directory.  Only a name of less than `DNAME_INLINE_LEN` characters stands in
`d_iname`; for a longer one, that is what the memory held before. -/
structure LinkDentry where
  /-- The path of the directory. -/
  dir : PathName
  /-- `d_name.name` -/
  name : Bytes
  /-- `d_iname` -/
  iname : Bytes
  inline : name.length < dnameInlineLen → iname = name
  name_lt : strlen (buildFullnameFromParent dir.chars name) < lxMaxpath
  iname_lt : strlen (buildFullnameFromParent dir.chars iname) < lxMaxpath
  deriving DecidableEq

namespace LinkDentry

/-- The path of the entry. -/
def path (d : LinkDentry) : PathName := .fromParent d.dir d.name d.name_lt

/-- `link->name`, which `iod_link` and `iod_unlink` build from `d_iname`. -/
def linkName (d : LinkDentry) : PathName := .fromParent d.dir d.iname d.iname_lt

end LinkDentry

/-- What links change of a dentry. -/
structure DentryState where
  /-- `d_count` -/
  count : ℤ
  /-- `d_inode` is the inode. -/
  positive : Bool
  /-- The dentry is in the hash table. -/
  hashed : Bool
  deriving DecidableEq

/-- The inode, the dentries, and the files of the host. -/
structure LinkState (κ : Type) where
  /-- The inode. -/
  inode : LinkedInode
  /-- The dentries. -/
  dentries : LinkDentry → DentryState
  /-- The host. -/
  host : Host κ

/-- The results of what `iod_link` calls. -/
structure LinkResults where
  /-- `lxafs_alloc_linkinfo` for `linkmaster` -/
  allocMaster : Bool
  /-- `lxafs_alloc_linkinfo` for `link` -/
  allocLink : Bool
  /-- `SecHlpOpen` in `lxafs_create_file` -/
  create : ULONG
  /-- `lxafs_write_linkchild_info` -/
  child : ChildResult
  /-- `path_lookup` -/
  lookup : PathLookup
  /-- `lxafs_alloc_linkinfo` in `lxafs_attach_linked_file` -/
  allocInfo : Bool

/-- The results of what `iod_unlink` calls. -/
structure UnlinkResults where
  /-- `lxafs_alloc_linkinfo` for `linkmaster` -/
  allocMaster : Bool
  /-- `lxafs_alloc_linkinfo` for `link` -/
  allocLink : Bool
  /-- `path_lookup` -/
  lookup : PathLookup
  /-- `LX_DOSCOPY` -/
  copy : CopyResult
  /-- `LX_DOSDELETE` or `LX_DOSDELETEDIR` -/
  delete : ULONG
  /-- `LX_EADELETE` -/
  eaDelete : Bool
  /-- `lxafs_write_linkchild_info` for each of the remaining names -/
  childs : PathName → ChildResult

/-- `LX_MAX_LINKS` -/
def lxMaxLinks : ULONG := 16

section Calls

variable {κ : Type} [DecidableEq κ] (key : PathName → κ)

/-- `simple_link` and `d_rehash` -/
def simpleLink (d : LinkDentry) (s : LinkState κ) : LinkState κ :=
  { s with
    inode := { s.inode with nlink := s.inode.nlink + 1, count := s.inode.count + 1 }
    dentries := Function.update s.dentries d ⟨(s.dentries d).count + 1, true, true⟩ }

/-- `simple_unlink` -/
def simpleUnlink (d : LinkDentry) (s : LinkState κ) : LinkState κ :=
  { s with
    inode := { s.inode with nlink := s.inode.nlink - 1 }
    dentries := Function.update s.dentries d
      { s.dentries d with count := (s.dentries d).count - 1 } }

/-- `iod_link` -/
def iodLink (d : LinkDentry) (r : LinkResults) (s : LinkState κ) : ULONG × LinkState κ :=
  if lxMaxLinks - 1 < s.inode.nlink then (negEMLINK, s)
  else if ¬ (r.allocMaster ∧ r.allocLink) then (negEPERM, s)
  else
    let created := Host.createFile key d.linkName r.create s.host
    if created.1 ≠ 0 then (negEPERM, { s with host := created.2 })
    else
      let s := simpleLink d { s with host := created.2 }
      let child := Host.writeLinkchildInfo key d.linkName s.inode.name r.child s.host
      if child.1 = 0 then
        (0, { s with
          inode := (lxafsAttachLinkedFile r.lookup r.allocInfo d.linkName s.inode).2
          host := child.2 })
      else (0, { s with host := child.2 })

/-- `LX_DOSDELETEDIR` for the name of a directory, and `LX_DOSDELETE` for any other. -/
def removeName (isDir : Bool) (name : PathName) (rc : ULONG) (h : Host κ) : ULONG × Host κ :=
  if isDir then Host.dosDeleteDir key name rc h else Host.dosDelete key name rc h

/-- `if(rc) rc=-EACCES` -/
def accessRc (rc : ULONG) : ULONG := if rc ≠ 0 then negEACCES else rc

/-- `iod_unlink` after the master name was deleted: the name `lfo` takes its place. -/
def promote (lfo : PathName) (r : UnlinkResults) (s : LinkState κ) : LinkState κ :=
  let host := Host.eaDelete key lfo .linkedTo r.eaDelete s.host
  let inode := { s.inode with name := lfo, list := s.inode.list.dropLast }
  { s with
    inode := inode.markDirty lxafsDirtyLinklist
    host := Host.rewriteChilds key lfo r.childs inode.list host }

/-- `iod_unlink` -/
def iodUnlink (d : LinkDentry) (r : UnlinkResults) (s : LinkState κ) : ULONG × LinkState κ :=
  if ¬ (r.allocMaster ∧ r.allocLink) then (negENOENT, s)
  else if strncmp d.linkName.chars s.inode.name.chars lxMaxpath = 0 then
    match s.inode.list.getLast? with
    | some lfo =>
      let host := (Host.dosCopy key d.linkName lfo r.copy s.host).2
      let deleted := removeName key s.inode.isDir d.linkName r.delete host
      let s := { s with host := deleted.2 }
      (accessRc deleted.1, if deleted.1 = 0 then promote key lfo r s else s)
    | none =>
      let deleted := removeName key s.inode.isDir d.linkName r.delete s.host
      (accessRc deleted.1, { s with host := deleted.2 })
  else
    let inode := (lxafsDetachLinkedFile r.lookup d.linkName s.inode).2
    let deleted := removeName key s.inode.isDir d.linkName r.delete s.host
    (accessRc deleted.1, simpleUnlink d { s with inode, host := deleted.2 })

end Calls

/-! ### What the host operations leave alone -/

namespace Host

variable {κ : Type} [DecidableEq κ] {key : PathName → κ} {h : Host κ} {k : κ}

/-- Deleting an attribute changes no contents. -/
theorem contents_eaDelete (name : PathName) (ea : EaName) (done : Bool) :
    (eaDelete key name ea done h k).map HostFile.contents = (h k).map HostFile.contents := by
  rw [eaDelete]
  split_ifs
  · by_cases hk : k = key name
    · rw [hk, Function.update_self, Option.map_map]
      rfl
    · rw [Function.update_of_ne hk]
  · rfl

/-- A new file, or an error. -/
theorem createFile_cases (key : PathName → κ) (name : PathName) (rc : ULONG) (h : Host κ) :
    h (key name) = none ∧
        createFile key name rc h = (0, Function.update h (key name) (some ⟨[], fun _ => none⟩)) ∨
      (createFile key name rc h).1 ≠ 0 ∧ (createFile key name rc h).2 = h := by
  unfold createFile
  split_ifs with hopen hsome
  · exact .inr ⟨hopen, rfl⟩
  · exact .inr ⟨by simp, rfl⟩
  · exact .inl ⟨Option.not_isSome_iff_eq_none.1 hsome, rfl⟩

/-- The dummy file is replaced, or left alone. -/
theorem writeLinkchildInfo_cases (key : PathName → κ) (fname linkmaster : PathName)
    (r : ChildResult) (h : Host κ) :
    (r.opened ∧ (h (key fname)).isSome) ∧
        (∃ f, writeLinkchildInfo key fname linkmaster r h =
          (0, Function.update h (key fname) (some f))) ∨
      ¬ (r.opened ∧ (h (key fname)).isSome) ∧
        writeLinkchildInfo key fname linkmaster r h = (1, h) := by
  by_cases hopen : r.opened ∧ (h (key fname)).isSome
  · exact .inl ⟨hopen, _, if_pos hopen⟩
  · exact .inr ⟨hopen, if_neg hopen⟩

theorem writeLinkchildInfo_of_ne {fname : PathName} (hk : k ≠ key fname) (linkmaster : PathName)
    (r : ChildResult) : (writeLinkchildInfo key fname linkmaster r h).2 k = h k := by
  rcases writeLinkchildInfo_cases key fname linkmaster r h with ⟨-, f, hw⟩ | ⟨-, hw⟩
  · rw [hw]
    exact Function.update_of_ne hk ..
  · rw [hw]

theorem rewriteChilds_of_notMem {l : List PathName} (hk : k ∉ l.map key) (linkmaster : PathName)
    (r : PathName → ChildResult) : rewriteChilds key linkmaster r l h k = h k := by
  induction l generalizing h with
  | nil => rfl
  | cons lfo l ih =>
    rw [List.map_cons, List.mem_cons, not_or] at hk
    rw [rewriteChilds, List.foldl_cons]
    exact (ih hk.2).trans (writeLinkchildInfo_of_ne hk.1 ..)

theorem dosCopy_of_ne {dst : PathName} (hk : k ≠ key dst) (src : PathName) (r : CopyResult) :
    (dosCopy key src dst r h).2 k = h k :=
  Function.update_of_ne hk ..

theorem dosCopy_self (src dst : PathName) (r : CopyResult) :
    (dosCopy key src dst r h).2 (key dst) = r.target (h (key src)) :=
  Function.update_self ..

end Host

/-! ### The branches of `iod_link` -/

section Link

variable {κ : Type} [DecidableEq κ]

/-- How the functions look for a name in the list. -/
theorem listed_iff {i : LinkedInode} {link : PathName} :
    (∃ lfo ∈ i.list, strncmp lfo.chars link.chars lxMaxpath = 0) ↔ link ∈ i.list := by
  simp

/-- Attaching a name adds it to the list, if the master name leads to the inode, there is memory,
and the name is new, and changes nothing otherwise. -/
theorem lxafsAttachLinkedFile_eq (lookup : PathLookup) (alloc : Bool) (link : PathName)
    (i : LinkedInode) :
    (lxafsAttachLinkedFile lookup alloc link i).2 =
      if lookup = .theInode ∧ alloc ∧ link ∉ i.list then
        { i with list := link :: i.list }.markDirty lxafsDirtyLinklist
      else i := by
  cases lookup with
  | theInode =>
    rw [lxafsAttachLinkedFile]
    by_cases halloc : alloc
    · rw [if_pos halloc]
      by_cases hlink : link ∈ i.list
      · rw [if_neg fun h => h.2.2 hlink, LinkedInode.addLinkinfo, if_pos (listed_iff.2 hlink)]
        rfl
      · rw [if_pos ⟨rfl, halloc, hlink⟩, LinkedInode.addLinkinfo,
          if_neg (mt listed_iff.1 hlink)]
        rfl
    · rw [if_neg halloc, if_neg fun h => halloc h.2.1]
  | _ =>
    rw [if_neg (by simp)]
    rfl

/-- `iod_link` fails before it changes anything, or creates a file and counts it. -/
theorem iodLink_cases (key : PathName → κ) (d : LinkDentry) (r : LinkResults) (s : LinkState κ) :
    (iodLink key d r s).1 ≠ 0 ∧ (iodLink key d r s).2 = s ∨
      (iodLink key d r s).1 = 0 ∧ ¬ lxMaxLinks - 1 < s.inode.nlink ∧
        s.host (key d.linkName) = none ∧
        ∃ f, (iodLink key d r s).2 = { simpleLink d s with
          inode :=
            if r.child.opened then
              (lxafsAttachLinkedFile r.lookup r.allocInfo d.linkName (simpleLink d s).inode).2
            else (simpleLink d s).inode
          host := Function.update s.host (key d.linkName) (some f) } := by
  unfold iodLink
  by_cases hlinks : lxMaxLinks - 1 < s.inode.nlink
  · rw [if_pos hlinks]
    exact .inl ⟨by simp [negEMLINK], rfl⟩
  rw [if_neg hlinks]
  by_cases halloc : r.allocMaster ∧ r.allocLink
  swap
  · rw [if_pos halloc]
    exact .inl ⟨by simp [negEPERM], rfl⟩
  rw [if_neg (not_not.2 halloc)]
  rcases Host.createFile_cases key d.linkName r.create s.host with
    ⟨hnone, hcreate⟩ | ⟨hrc, hhost⟩
  swap
  · simp only [if_pos hrc, hhost]
    exact .inl ⟨by simp [negEPERM], trivial⟩
  -- the new file
  simp only [hcreate, ne_eq, not_true_eq_false, ↓reduceIte, simpleLink]
  rcases Host.writeLinkchildInfo_cases key d.linkName s.inode.name r.child
      (Function.update s.host (key d.linkName) (some ⟨[], fun _ => none⟩)) with
    ⟨hopened, f, hchild⟩ | ⟨hopened, hchild⟩
  · rw [hchild, Function.update_idem]
    simp only [↓reduceIte, if_pos hopened.1]
    exact .inr ⟨trivial, hlinks, hnone, f, rfl⟩
  · have hshut : ¬ r.child.opened := fun h => hopened ⟨h, by rw [Function.update_self]; rfl⟩
    have hone : ¬ (1 : ULONG) = 0 := by decide
    rw [hchild]
    simp only [if_neg hshut, if_neg hone]
    exact .inr ⟨trivial, hlinks, hnone, _, rfl⟩

end Link

section Unlink

variable {κ : Type} [DecidableEq κ] {key : PathName → κ} {d : LinkDentry} {r : UnlinkResults}
  {s : LinkState κ} {lfo : PathName} {data : Bytes}

/-! ### The branches of `iod_unlink` -/

theorem removeName_eq (isDir : Bool) (name : PathName) (rc : ULONG) (h : Host κ) :
    removeName key isDir name rc h =
      (rc, if rc = 0 then Function.update h (key name) none else h) := by
  rw [removeName, Host.dosDeleteDir, ite_self, Host.dosDelete]

theorem accessRc_eq_zero_iff (rc : ULONG) : accessRc rc = 0 ↔ rc = 0 := by
  rw [accessRc]
  split_ifs with h
  · exact iff_of_false (by decide) h
  · rfl

theorem iodUnlink_of_not_alloc (halloc : ¬ (r.allocMaster ∧ r.allocLink)) :
    iodUnlink key d r s = (negENOENT, s) :=
  if_pos halloc

/-- The master name of a file with further names. -/
theorem iodUnlink_of_master (halloc : r.allocMaster ∧ r.allocLink)
    (hname : d.linkName = s.inode.name) (hlast : s.inode.list.getLast? = some lfo) :
    iodUnlink key d r s = (accessRc r.delete,
      if r.delete = 0 then
        promote key lfo r { s with
          host := Function.update (Host.dosCopy key s.inode.name lfo r.copy s.host).2
            (key s.inode.name) none }
      else { s with host := (Host.dosCopy key s.inode.name lfo r.copy s.host).2 }) := by
  rw [iodUnlink, if_neg (not_not.2 halloc), if_pos ((PathName.strncmp_eq_zero_iff ..).2 hname),
    hlast]
  simp only [removeName_eq, hname]
  by_cases hdel : r.delete = 0
  · rw [if_pos hdel, if_pos hdel, if_pos hdel]
  · rw [if_neg hdel, if_neg hdel, if_neg hdel]

/-- The only name of a file. -/
theorem iodUnlink_of_only (halloc : r.allocMaster ∧ r.allocLink)
    (hname : d.linkName = s.inode.name) (hlist : s.inode.list = []) :
    iodUnlink key d r s = (accessRc r.delete, { s with
      host :=
        if r.delete = 0 then Function.update s.host (key s.inode.name) none else s.host }) := by
  rw [iodUnlink, if_neg (not_not.2 halloc), if_pos ((PathName.strncmp_eq_zero_iff ..).2 hname),
    hlist, List.getLast?_nil]
  simp only [removeName_eq, hname]

/-- A name that is not the master name. -/
theorem iodUnlink_of_child (halloc : r.allocMaster ∧ r.allocLink)
    (hname : d.linkName ≠ s.inode.name) :
    iodUnlink key d r s = (accessRc r.delete, simpleUnlink d { s with
      inode := (lxafsDetachLinkedFile r.lookup d.linkName s.inode).2
      host := if r.delete = 0 then Function.update s.host (key d.linkName) none else s.host }) := by
  rw [iodUnlink, if_neg (not_not.2 halloc),
    if_neg (mt (PathName.strncmp_eq_zero_iff ..).1 hname)]
  simp only [removeName_eq]

/-- Detaching a name takes it off the list, if the master name leads to the inode and the name is
in the list, and changes nothing otherwise. -/
theorem lxafsDetachLinkedFile_eq (lookup : PathLookup) (link : PathName) (i : LinkedInode) :
    (lxafsDetachLinkedFile lookup link i).2 =
      if lookup = .theInode ∧ link ∈ i.list then
        { i with list := i.list.erase link }.markDirty lxafsDirtyLinklist
      else i := by
  cases lookup with
  | theInode =>
    rw [lxafsDetachLinkedFile]
    by_cases hlink : link ∈ i.list
    · rw [if_pos (listed_iff.2 hlink), if_pos ⟨rfl, hlink⟩, List.erase_eq_eraseP]
      simp only [PathName.strncmp_eq_zero_iff]
      congr
      funext a
      exact decide_eq_decide.2 eq_comm
    · rw [if_neg (mt listed_iff.1 hlink), if_neg fun h => hlink h.2]
  | _ =>
    rw [if_neg (by simp)]
    rfl

theorem name_lxafsDetachLinkedFile (lookup : PathLookup) (link : PathName) (i : LinkedInode) :
    (lxafsDetachLinkedFile lookup link i).2.name = i.name := by
  rw [lxafsDetachLinkedFile_eq]
  split_ifs <;> rfl

/-! ### The data -/

/-- The host file of the master name holds the data of the file. -/
def DataKept (key : PathName → κ) (data : Bytes) (s : LinkState κ) : Prop :=
  (s.host (key s.inode.name)).map HostFile.contents = some data

/-- A copy of the data is complete, or what a failed attempt leaves holds it all the same. -/
def CopyResult.Complete (data : Bytes) : CopyResult → Prop
  | .done => True
  | .failed _ left => left.map HostFile.contents = some data

/-- The call deletes the master's host file, and there is no complete copy of it. -/
def LosesData (key : PathName → κ) (data : Bytes) (d : LinkDentry) (r : UnlinkResults)
    (s : LinkState κ) : Prop :=
  (r.allocMaster ∧ r.allocLink) ∧ r.delete = 0 ∧
    (d.linkName = s.inode.name ∧ ¬ r.copy.Complete data ∨
      d.linkName ≠ s.inode.name ∧ key d.linkName = key s.inode.name)

theorem CopyResult.contents_target {src : Option HostFile} (c : CopyResult)
    (hdata : src.map HostFile.contents = some data) :
    (c.target src).map HostFile.contents = some data ↔ c.Complete data := by
  cases c with
  | done => exact iff_of_true hdata trivial
  | failed rc left => rfl

omit [DecidableEq κ] in
/-- The last name of the list has a host file of its own. -/
theorem LinkedInode.key_ne {i : LinkedInode} (hkeys : (i.names.map key).Nodup)
    (hlast : i.list.getLast? = some lfo) :
    key i.name ≠ key lfo ∧ key lfo ∉ i.list.dropLast.map key := by
  have hlist : i.list = i.list.dropLast ++ [lfo] := (List.dropLast_append_getLast? lfo hlast).symm
  rw [names, hlist, List.map_cons, List.map_append, List.nodup_cons, List.nodup_append] at hkeys
  constructor
  · intro h
    exact hkeys.1 (List.mem_append_right _ (List.mem_singleton.2 h))
  · intro h
    exact hkeys.2.2.2 _ h _ List.mem_cons_self rfl

/-- The contents of the new master's host file are what the copy has left there. -/
theorem contents_promote (hkeys : (s.inode.names.map key).Nodup)
    (hlast : s.inode.list.getLast? = some lfo) (h : Host κ) :
    ((promote key lfo r { s with host := h }).host (key lfo)).map HostFile.contents =
      (h (key lfo)).map HostFile.contents := by
  have hne := (LinkedInode.key_ne hkeys hlast).2
  rw [promote]
  simp only
  rw [Host.rewriteChilds_of_notMem hne, Host.contents_eaDelete]

/-- **What happens to the data of a file with several names.**  After `iod_unlink` the host file
of the master name holds it, unless the call has deleted the host file that held it and there is
no complete copy. -/
theorem iodUnlink_dataKept_iff (hlist : s.inode.list ≠ [])
    (hkeys : (s.inode.names.map key).Nodup) (hdata : DataKept key data s) :
    DataKept key data (iodUnlink key d r s).2 ↔ ¬ LosesData key data d r s := by
  by_cases halloc : r.allocMaster ∧ r.allocLink
  swap
  · rw [iodUnlink_of_not_alloc halloc]
    exact iff_of_true hdata fun h => halloc h.1
  by_cases hname : d.linkName = s.inode.name
  · obtain ⟨lfo, hlast⟩ : ∃ lfo, s.inode.list.getLast? = some lfo :=
      ⟨_, List.getLast?_eq_some_getLast hlist⟩
    have hne := (LinkedInode.key_ne hkeys hlast).1
    rw [iodUnlink_of_master halloc hname hlast]
    by_cases hdel : r.delete = 0
    · -- the copy is all that is left
      have hloses : LosesData key data d r s ↔ ¬ r.copy.Complete data := by
        simp [LosesData, halloc, hdel, hname]
      rw [if_pos hdel, hloses, not_not, ← r.copy.contents_target hdata, DataKept]
      have hmaster (h : Host κ) : (promote key lfo r { s with host := h }).inode.name = lfo := rfl
      rw [hmaster, contents_promote hkeys hlast, Function.update_of_ne hne.symm, Host.dosCopy_self]
    · -- the master's host file is still there
      rw [if_neg hdel]
      refine iff_of_true ?_ fun h => hdel h.2.1
      exact (congrArg _ (Host.dosCopy_of_ne hne ..)).trans hdata
  · rw [iodUnlink_of_child halloc hname, DataKept, simpleUnlink]
    simp only [name_lxafsDetachLinkedFile]
    by_cases hdel : r.delete = 0
    · rw [if_pos hdel]
      by_cases hk : key d.linkName = key s.inode.name
      · rw [hk, Function.update_self]
        exact iff_of_false nofun (not_not.2 ⟨halloc, hdel, .inr ⟨hname, hk⟩⟩)
      · rw [Function.update_of_ne (Ne.symm hk)]
        refine iff_of_true hdata ?_
        rintro ⟨-, -, ⟨h, -⟩ | ⟨-, h⟩⟩
        · exact hname h
        · exact hk h
    · rw [if_neg hdel]
      exact iff_of_true hdata fun h => hdel h.2.1

/-! ### Calls that fail -/

/-- What a call that fails should leave as it was. -/
structure Unchanged (key : PathName → κ) (s s' : LinkState κ) : Prop where
  list : s'.inode.list = s.inode.list
  name : s'.inode.name = s.inode.name
  nlink : s'.inode.nlink = s.inode.nlink
  dentries : s'.dentries = s.dentries
  host : ∀ n ∈ s.inode.names, s'.host (key n) = s.host (key n)

/-- A call of `iod_link` or `iod_unlink`. -/
inductive LinkCall
  /-- `iod_link` -/
  | link (d : LinkDentry) (r : LinkResults)
  /-- `iod_unlink` -/
  | unlink (d : LinkDentry) (r : UnlinkResults)

/-- The result of a call, and the state after it. -/
def LinkCall.run (key : PathName → κ) (s : LinkState κ) : LinkCall → ULONG × LinkState κ
  | .link d r => iodLink key d r s
  | .unlink d r => iodUnlink key d r s

/-- An attempt to copy the master's host file changes the host file of the last name of the
list. -/
def CopyTouches (key : PathName → κ) (r : UnlinkResults) (s : LinkState κ) : Prop :=
  ∃ lfo, s.inode.list.getLast? = some lfo ∧
    r.copy.target (s.host (key s.inode.name)) ≠ s.host (key lfo)

/-- The host does not delete the file, when `iod_unlink` has already taken the name off the list
and counted it down, or has copied the file over that of another name. -/
def Spoils (key : PathName → κ) (s : LinkState κ) : LinkCall → Prop
  | .link _ _ => False
  | .unlink d r => (r.allocMaster ∧ r.allocLink) ∧ r.delete ≠ 0 ∧
      (d.linkName ≠ s.inode.name ∨ CopyTouches key r s)

omit [DecidableEq κ] in
theorem Unchanged.refl (s : LinkState κ) : Unchanged key s s :=
  ⟨rfl, rfl, rfl, rfl, fun _ _ => rfl⟩

omit [DecidableEq κ] in
/-- The count of `simple_unlink` is never what it was. -/
theorem not_unchanged_simpleUnlink {i : LinkedInode} (hi : i.nlink = s.inode.nlink) (h : Host κ) :
    ¬ Unchanged key s (simpleUnlink d { s with inode := i, host := h }) := by
  intro hun
  have hnlink : i.nlink - 1 = s.inode.nlink := hun.nlink
  rw [hi, sub_eq_self] at hnlink
  exact absurd hnlink (by decide)

/-- The result is that of the deletion. -/
theorem iodUnlink_fst (halloc : r.allocMaster ∧ r.allocLink) :
    (iodUnlink key d r s).1 = accessRc r.delete := by
  by_cases hname : d.linkName = s.inode.name
  · cases hlast : s.inode.list.getLast? with
    | some lfo => rw [iodUnlink_of_master halloc hname hlast]
    | none => rw [iodUnlink_of_only halloc hname (List.getLast?_eq_none_iff.1 hlast)]
  · rw [iodUnlink_of_child halloc hname]

/-- A copy of the master's host file over that of the last name. -/
theorem unchanged_dosCopy_iff (hlast : s.inode.list.getLast? = some lfo) :
    Unchanged key s
        { s with host := (Host.dosCopy key s.inode.name lfo r.copy s.host).2 } ↔
      ¬ CopyTouches key r s := by
  constructor
  · rintro hun ⟨lfo', hlast', hne⟩
    rw [hlast, Option.some.injEq] at hlast'
    subst hlast'
    apply hne
    rw [← Host.dosCopy_self]
    exact hun.host lfo (List.mem_cons_of_mem _ (List.mem_of_getLast? hlast))
  · intro hkeeps
    have htarget : r.copy.target (s.host (key s.inode.name)) = s.host (key lfo) := by
      by_contra hne
      exact hkeeps ⟨lfo, hlast, hne⟩
    refine ⟨rfl, rfl, rfl, rfl, ?_⟩
    intro n hn
    by_cases hk : key n = key lfo
    · rw [hk]
      exact (Host.dosCopy_self ..).trans htarget
    · exact Host.dosCopy_of_ne hk ..

/-- **What a failing call changes**: nothing, unless the host refuses to delete a file after
`iod_unlink` has taken its name off the list, or has copied it over the file of another name. -/
theorem failed_unchanged_iff (c : LinkCall) :
    ((c.run key s).1 ≠ 0 → Unchanged key s (c.run key s).2) ↔ ¬ Spoils key s c := by
  cases c with
  | link d r =>
    refine iff_of_true (fun hrc => ?_) not_false
    rcases iodLink_cases key d r s with ⟨-, hs⟩ | ⟨hrc', -⟩
    · rw [LinkCall.run, hs]
      exact .refl s
    · exact absurd hrc' hrc
  | unlink d r =>
    rw [LinkCall.run, Spoils]
    by_cases halloc : r.allocMaster ∧ r.allocLink
    swap
    · rw [iodUnlink_of_not_alloc halloc]
      exact iff_of_true (fun _ => .refl s) fun h => halloc h.1
    rw [iodUnlink_fst halloc]
    by_cases hdel : r.delete = 0
    · -- the call succeeds
      exact iff_of_true (fun hrc => absurd ((accessRc_eq_zero_iff _).2 hdel) hrc)
        fun h => h.2.1 hdel
    have hrc : accessRc r.delete ≠ 0 := mt (accessRc_eq_zero_iff _).1 hdel
    rw [imp_iff_right hrc, and_iff_right halloc, and_iff_right hdel, not_or]
    by_cases hname : d.linkName = s.inode.name
    · rw [and_iff_right (not_not.2 hname)]
      cases hlast : s.inode.list.getLast? with
      | some lfo =>
        rw [iodUnlink_of_master halloc hname hlast, if_neg hdel]
        exact unchanged_dosCopy_iff hlast
      | none =>
        rw [iodUnlink_of_only halloc hname (List.getLast?_eq_none_iff.1 hlast), if_neg hdel]
        refine iff_of_true (.refl s) ?_
        rintro ⟨lfo, hlfo, -⟩
        rw [hlast] at hlfo
        cases hlfo
    · rw [iodUnlink_of_child halloc hname]
      refine iff_of_false (fun h => ?_) fun h => h.1 hname
      refine not_unchanged_simpleUnlink ?_ _ h
      rw [lxafsDetachLinkedFile_eq]
      split_ifs <;> rfl

end Unlink

/-- The directory `C:`. -/
def sampleDir : PathName := ⟨rootName, by decide, by decide⟩

/-- An entry of `C:` with a name of one character. -/
def sampleEntry (c : UInt8) (h : strlen (buildFullnameFromParent sampleDir.chars [c]) < lxMaxpath) :
    LinkDentry :=
  ⟨sampleDir, [c], [c], fun _ => rfl, h, h⟩

/-- The entries `C:/a` and `C:/b`. -/
def entryA : LinkDentry := sampleEntry 97 (by decide)

@[inherit_doc entryA]
def entryB : LinkDentry := sampleEntry 98 (by decide)

/-- The file `C:/a` with the link `C:/b`. -/
def sampleLinks : LinkState Bytes where
  inode := ⟨2, 2, false, entryA.path, [entryB.path], 0⟩
  dentries := fun _ => ⟨1, true, true⟩
  host := Function.update (Function.update (fun _ => none) entryB.path.chars
    (some ⟨lxafsDummyMsg entryA.path.chars, fun _ => none⟩)) entryA.path.chars
    (some ⟨[1], fun _ => none⟩)

/-- Everything succeeds, except perhaps the copy and the deletion. -/
def sampleResults (copy : CopyResult) (delete : ULONG) : UnlinkResults where
  allocMaster := true
  allocLink := true
  lookup := .theInode
  copy := copy
  delete := delete
  eaDelete := true
  childs := fun _ => ⟨true, true, 0, true⟩

/-- `iodUnlink_dataKept_iff` for the master name, when the copy succeeds. -/
theorem iodUnlink_dataKept_copied :
    DataKept PathName.chars [1] (iodUnlink PathName.chars entryA (sampleResults .done 0)
      sampleLinks).2 := by
  have hdata : DataKept PathName.chars [1] sampleLinks := rfl
  refine (iodUnlink_dataKept_iff (by decide) (by decide) hdata).2 ?_
  rintro ⟨-, -, ⟨-, h⟩ | ⟨h, -⟩⟩
  · exact h trivial
  · exact h rfl

/-- The disk is full when the file is copied to `C:/b`.  Then the data is nowhere. -/
theorem not_dataKept_diskFull :
    sampleLinks.inode.list ≠ [] ∧ (sampleLinks.inode.names.map PathName.chars).Nodup ∧
      entryA.path ∈ sampleLinks.inode.names ∧ DataKept PathName.chars [1] sampleLinks ∧
      (iodUnlink PathName.chars entryA (sampleResults (.failed 112 none) 0) sampleLinks).1 = 0 ∧
      ¬ DataKept PathName.chars [1]
        (iodUnlink PathName.chars entryA (sampleResults (.failed 112 none) 0) sampleLinks).2 := by
  refine ⟨by decide, by decide, by decide, rfl, rfl, nofun⟩

/-- `C:/b` is open in another program when it is unlinked.  The host does not delete it, and its
name is off the list, and the master has one link less. -/
theorem not_unchanged_deniedChild :
    (iodUnlink PathName.chars entryB (sampleResults .done 32) sampleLinks).1 ≠ 0 ∧
      (iodUnlink PathName.chars entryB (sampleResults .done 32) sampleLinks).2.inode.list = [] ∧
      (iodUnlink PathName.chars entryB (sampleResults .done 32) sampleLinks).2.inode.nlink = 1 ∧
      ¬ Unchanged PathName.chars sampleLinks
        (iodUnlink PathName.chars entryB (sampleResults .done 32) sampleLinks).2 := by
  refine ⟨by decide, rfl, by decide, ?_⟩
  intro hun
  exact absurd hun.list (by decide)

end LxApi32
