import LxApi32.Lib.Flags
import LxApi32.Lxafs.Dates
import LxApi32.Lxafs.FileSize
import LxApi32.Lxafs.LinkList

/-!
# Attribute changes

`iof_setattr` adds the changed attributes to the pending ones in `li->ia_valid`, changes the inode
and has `lxafs_write_inode` write what is pending to the host: the size and the time stamps through
a handle, and the mode and the owner as extended attributes, by the name of the file.  A new size
is also written by `iof_truncate`, from inside `inode_setattr`.

The host's answers are arguments.  A handle is `none` until the host has opened the file, and a
call with such a handle does nothing to the file, whatever the answer is.

* `durable_iofSetattr_iff` : a change that returns 0 while the host does everything is durable
  exactly if the mode and the owner are not pending alone, without the size or a time stamp, and the
  host has what is neither pending nor asked for.
* `noTrace_iff` : a change that is refused leaves no trace exactly if its attributes were pending
  already; and a function that fails to open the file never leaves the host and the pending
  attributes alone, because the result of the open is tested as an unsigned number.
-/

namespace LxApi32

open CString Decimal

/-- `ATTR_MODE` -/
def attrMode : ULONG := 1

/-- `ATTR_UID` -/
def attrUid : ULONG := 2

/-- `ATTR_GID` -/
def attrGid : ULONG := 4

/-- `ATTR_SIZE` -/
def attrSize : ULONG := 8

/-- `ATTR_ATIME` -/
def attrAtime : ULONG := 16

/-- `ATTR_MTIME` -/
def attrMtime : ULONG := 32

/-- `ATTR_CTIME` -/
def attrCtime : ULONG := 64

/-- `ATTR_ATIME_SET` -/
def attrAtimeSet : ULONG := 128

/-- `ATTR_MTIME_SET` -/
def attrMtimeSet : ULONG := 256

/-- `ATTR_FORCE` -/
def attrForce : ULONG := 512

/-- The bits of the time stamps that `lxafs_write_inode` tests. -/
def attrTimes : ULONG := attrAtime ||| attrMtime ||| attrCtime ||| attrAtimeSet ||| attrMtimeSet

/-- The bits of the attributes that are written by the name of the file. -/
def attrEas : ULONG := attrMode ||| attrUid ||| attrGid

/-- `S_ISREG` -/
def sIsreg (mode : BitVec 16) : Bool := mode &&& 0o170000 == 0o100000

/-- `S_ISGID` -/
def sIsgid : BitVec 16 := 0o2000

/-- `s_maxbytes`, from `lxafs_fill_super` -/
def sMaxbytes : ℕ := 4096

/-- `struct iattr`.  The callers have checked that the size is not negative. -/
structure Iattr where
  /-- `ia_valid` -/
  iaValid : ULONG
  /-- `ia_mode` -/
  iaMode : BitVec 16
  /-- `ia_uid` -/
  iaUid : BitVec 32
  /-- `ia_gid` -/
  iaGid : BitVec 32
  /-- `ia_size` -/
  iaSize : ℕ
  /-- `ia_atime` -/
  iaAtime : ℤ
  /-- `ia_mtime` -/
  iaMtime : ℤ
  /-- `ia_ctime` -/
  iaCtime : ℤ

/-- An inode of lxafs.  Its size is always one that the host has given, or one that `vmtruncate`
has accepted, and so it has 32 bits. -/
structure AttrInode where
  /-- `i_mode` -/
  iMode : BitVec 16
  /-- `i_uid` -/
  iUid : BitVec 32
  /-- `i_gid` -/
  iGid : BitVec 32
  /-- `i_size` -/
  iSize : ULONG
  /-- `i_atime` -/
  iAtime : ℤ
  /-- `i_mtime` -/
  iMtime : ℤ
  /-- `i_ctime` -/
  iCtime : ℤ
  /-- `lxafs_is_lxafs_inode` -/
  lxafs : Bool
  /-- `ia_valid` of the `lxafs_inode_info` -/
  iaValid : ULONG
  /-- `dirty_flag` of the `lxafs_inode_info` -/
  dirtyFlag : ULONG

/-- The current task. -/
structure Cred where
  /-- `fsuid` -/
  fsuid : BitVec 32
  /-- `capable(CAP_CHOWN)` -/
  capChown : Bool
  /-- `capable(CAP_FOWNER)` -/
  capFowner : Bool
  /-- `capable(CAP_FSETID)` -/
  capFsetid : Bool
  /-- `in_group_p` -/
  inGroupP : BitVec 32 → Bool
  /-- The limit `RLIMIT_FSIZE`, `none` for `RLIM_INFINITY`. -/
  rlimFsize : Option ℕ

/-- The time stamps in `FILESTATUS3`. -/
structure FileDates where
  /-- `fdateCreation`, `ftimeCreation` -/
  creation : FDate × FTime
  /-- `fdateLastAccess`, `ftimeLastAccess` -/
  lastAccess : FDate × FTime
  /-- `fdateLastWrite`, `ftimeLastWrite` -/
  lastWrite : FDate × FTime
  deriving DecidableEq, Repr

/-- The host's file. -/
structure AttrFile where
  /-- Its size. -/
  size : ULONG
  /-- Its time stamps. -/
  dates : FileDates
  /-- Its extended attributes, when the daemon has executed all that is queued. -/
  ea : EaStore

/-- A handle, if the host has given one. -/
abbrev HFile := Option ULONG

/-- A call to the host. -/
inductive HostCall
  /-- `LX_DOSOPEN` -/
  | dosOpen (cbFile : ULONG)
  /-- `LX_DOSSETFILESIZE` -/
  | dosSetFileSize (hFile : HFile) (cbSize : ULONG)
  /-- `LX_DOSQUERYFILEINFO` -/
  | dosQueryFileInfo (hFile : HFile)
  /-- `LX_DOSSETFILEINFO` -/
  | dosSetFileInfo (hFile : HFile) (fs : FileDates)
  /-- `LX_DOSCLOSE` -/
  | dosClose (hFile : HFile)
  /-- `LX_EAWRITESTRING` -/
  | eaWriteString (eaName eaval : Bytes)
  deriving DecidableEq

/-- The call is made with a handle that the host has not given. -/
def HostCall.unopened : HostCall → Bool
  | dosSetFileSize hFile _ | dosQueryFileInfo hFile | dosSetFileInfo hFile _ | dosClose hFile =>
    hFile.isNone
  | dosOpen _ | eaWriteString .. => false

/-- An inode, its host file, and the calls to the host so far. -/
structure Maint where
  /-- The inode. -/
  ino : AttrInode
  /-- The host's file. -/
  file : AttrFile
  /-- The calls. -/
  calls : List HostCall

/-- What `LX_DOSOPEN` answers. -/
structure DosOpenAnswer where
  /-- The return code. -/
  rc : ULONG
  /-- The handle. -/
  hFile : ULONG

/-- What the host answers in `iof_truncate`. -/
structure TruncateAnswer where
  /-- `LX_DOSOPEN` -/
  opened : DosOpenAnswer
  /-- `LX_DOSSETFILESIZE` -/
  setSize : ULONG

/-- What the host answers in `lxafs_write_inode`. -/
structure WriteAnswer where
  /-- `LX_DOSOPEN` -/
  opened : DosOpenAnswer
  /-- `LX_DOSSETFILESIZE` -/
  setSize : ULONG
  /-- `LX_DOSQUERYFILEINFO` -/
  query : ULONG
  /-- The time stamps that it gives for a handle of another file. -/
  other : FileDates
  /-- `LX_DOSSETFILEINFO` -/
  setInfo : ULONG
  /-- The daemon writes the attribute. -/
  ea : Bytes → Bool

namespace Maint

/-- A call is made. -/
def call (s : Maint) (c : HostCall) : Maint := { s with calls := s.calls ++ [c] }

/-- `li->ia_valid&=~m` -/
def clearValid (s : Maint) (m : ULONG) : Maint :=
  { s with ino := { s.ino with iaValid := s.ino.iaValid &&& ~~~m } }

/-- `LX_DOSSETFILESIZE` -/
def dosSetFileSize (s : Maint) (hFile : HFile) (cbSize rc : ULONG) : Maint :=
  let s := s.call (.dosSetFileSize hFile cbSize)
  if hFile.isSome ∧ rc = 0 then { s with file := { s.file with size := cbSize } } else s

/-- `LX_DOSSETFILEINFO` -/
def dosSetFileInfo (s : Maint) (hFile : HFile) (fs : FileDates) (rc : ULONG) : Maint :=
  let s := s.call (.dosSetFileInfo hFile fs)
  if hFile.isSome ∧ rc = 0 then { s with file := { s.file with dates := fs } } else s

/-- `lxafs_open_inode_for_maintenance`; its result is kept in an unsigned variable. -/
def lxafsOpenInodeForMaintenance (s : Maint) (r : DosOpenAnswer) : ULONG × HFile × Maint :=
  if s.ino.lxafs then
    let s := s.call (.dosOpen s.ino.iSize)
    if r.rc ≠ 0 then (negEPERM, none, s) else (0, some r.hFile, s)
  else (negENOENT, none, s)

/-- `iof_truncate` -/
def iofTruncate (s : Maint) (r : TruncateAnswer) : Maint :=
  let (rc, hFile, s) := s.lxafsOpenInodeForMaintenance r.opened
  -- `rc>=0`
  if (0 : ULONG) ≤ rc then
    let s := s.dosSetFileSize hFile s.ino.iSize r.setSize
    let s := if r.setSize = 0 then s.clearValid attrSize else s
    s.call (.dosClose hFile)
  else s

/-- `vmtruncate` -/
def vmtruncate (s : Maint) (cur : Cred) (offset : ℕ) (r : TruncateAnswer) : ℤ × Maint :=
  let truncated := { s with ino := { s.ino with iSize := BitVec.ofNat 32 offset } }.iofTruncate r
  if s.ino.iSize.toNat < offset then
    if ∃ limit ∈ cur.rlimFsize, limit < offset then (-errEFBIG, s)
    else if sMaxbytes < offset then (-errEFBIG, s)
    else (0, truncated)
  else (0, truncated)

/-- `lxafs_write_ea`; the daemon executes the command, if it can. -/
def lxafsWriteEa (s : Maint) (eaName : Bytes) (value : ULONG) (ok : Bytes → Bool) : Maint :=
  let val := number value.toInt
  let s := s.call (.eaWriteString eaName val)
  if ok eaName then
    { s with file := { s.file with
        ea := eahWriteStringEA eaName (strncpy [] val (val.length + 1)) s.file.ea } }
  else s

/-- The part of `lxafs_write_inode` that writes the size. -/
def writeSize (s : Maint) (hFile : HFile) (r : WriteAnswer) : Maint :=
  if s.ino.iaValid &&& attrSize ≠ 0 then
    let s := s.dosSetFileSize hFile s.ino.iSize r.setSize
    if r.setSize = 0 then s.clearValid attrSize else s
  else s

/-- The time stamps that `lxafs_write_inode` writes over those it has got. -/
def newDates (tz : ℤ) (ino : AttrInode) (fs : FileDates) : FileDates where
  lastAccess := if ino.iaValid &&& (attrAtime ||| attrAtimeSet) ≠ 0 then
    lxafsDateUnix2lx tz ino.iAtime else fs.lastAccess
  lastWrite := if ino.iaValid &&& (attrMtime ||| attrMtimeSet) ≠ 0 then
    lxafsDateUnix2lx tz ino.iMtime else fs.lastWrite
  creation := if ino.iaValid &&& attrCtime ≠ 0 then
    lxafsDateUnix2lx tz ino.iCtime else fs.creation

/-- The part of `lxafs_write_inode` that writes the time stamps. -/
def writeTimes (s : Maint) (tz : ℤ) (hFile : HFile) (r : WriteAnswer) : Maint :=
  if s.ino.iaValid &&& attrTimes ≠ 0 then
    let s := s.call (.dosQueryFileInfo hFile)
    if r.query = 0 then
      let fs := if hFile.isSome then s.file.dates else r.other
      let s := s.dosSetFileInfo hFile (newDates tz s.ino fs) r.setInfo
      if r.setInfo = 0 then s.clearValid attrTimes else s
    else s
  else s

/-- One of the last three parts of `lxafs_write_inode`. -/
def writeEaIf (s : Maint) (m : ULONG) (eaName : Bytes) (value : ULONG) (ok : Bytes → Bool) :
    Maint :=
  if s.ino.iaValid &&& m ≠ 0 then (s.lxafsWriteEa eaName value ok).clearValid m else s

/-- `lxafs_write_inode`; `relink` is what `lxafs_rewrite_linklist` does to the attributes. -/
def lxafsWriteInode (s : Maint) (tz : ℤ) (relink : EaStore → EaStore) (r : WriteAnswer) : Maint :=
  if sIsreg s.ino.iMode then
    let s :=
      if s.ino.dirtyFlag &&& (lxafsDirtyLinklist ||| EaSys.lxafsDirtyLinkchilds) ≠ 0 then
        { s with
          file := { s.file with ea := relink s.file.ea }
          ino := { s.ino with dirtyFlag :=
            s.ino.dirtyFlag &&& ~~~(lxafsDirtyLinklist ||| EaSys.lxafsDirtyLinkchilds) } }
      else s
    if s.ino.iaValid &&& (attrSize ||| attrTimes) ≠ 0 then
      let (rc, hFile, s) := s.lxafsOpenInodeForMaintenance r.opened
      -- `rc>=0`
      if (0 : ULONG) ≤ rc then
        let s := ((s.writeSize hFile r).writeTimes tz hFile r).call (.dosClose hFile)
        let s := s.writeEaIf attrMode lxeanMode (s.ino.iMode.setWidth 32) r.ea
        let s := s.writeEaIf attrUid lxeanUid s.ino.iUid r.ea
        s.writeEaIf attrGid lxeanGid s.ino.iGid r.ea
      else s
    else s
  else s

end Maint

/-- `inode_change_ok`: what it returns, and the attributes without the bit it takes away. -/
def inodeChangeOk (cur : Cred) (ino : AttrInode) (attr : Iattr) : ℤ × Iattr :=
  let owner := cur.fsuid = ino.iUid
  if attr.iaValid &&& attrForce ≠ 0 then (0, attr)
  else if attr.iaValid &&& attrUid ≠ 0 ∧ (¬ owner ∨ attr.iaUid ≠ ino.iUid) ∧
      cur.capChown = false then (-errEPERM, attr)
  else if attr.iaValid &&& attrGid ≠ 0 ∧ (cur.inGroupP attr.iaGid = false ∧
      attr.iaGid ≠ ino.iGid) ∧ cur.capChown = false then (-errEPERM, attr)
  else if attr.iaValid &&& attrMode ≠ 0 ∧ ¬ owner ∧ cur.capFowner = false then (-errEPERM, attr)
  else
    let gid := if attr.iaValid &&& attrGid ≠ 0 then attr.iaGid else ino.iGid
    let attr :=
      if attr.iaValid &&& attrMode ≠ 0 ∧ cur.inGroupP gid = false ∧ cur.capFsetid = false then
        { attr with iaMode := attr.iaMode &&& ~~~sIsgid }
      else attr
    if attr.iaValid &&& (attrMtimeSet ||| attrAtimeSet) ≠ 0 ∧ ¬ owner ∧ cur.capFowner = false then
      (-errEPERM, attr)
    else (0, attr)

/-- The part of `inode_setattr` after the size. -/
def AttrInode.set (ino : AttrInode) (cur : Cred) (attr : Iattr) (iaValid : ULONG) : AttrInode :=
  let ino := { ino with
    iUid := if iaValid &&& attrUid ≠ 0 then attr.iaUid else ino.iUid
    iGid := if iaValid &&& attrGid ≠ 0 then attr.iaGid else ino.iGid
    iAtime := if iaValid &&& attrAtime ≠ 0 then attr.iaAtime else ino.iAtime
    iMtime := if iaValid &&& attrMtime ≠ 0 then attr.iaMtime else ino.iMtime
    iCtime := if iaValid &&& attrCtime ≠ 0 then attr.iaCtime else ino.iCtime }
  if iaValid &&& attrMode ≠ 0 then
    { ino with iMode :=
        if cur.inGroupP ino.iGid = false ∧ cur.capFsetid = false then attr.iaMode &&& ~~~sIsgid
        else attr.iaMode }
  else ino

namespace Maint

/-- The truncation that `inode_setattr` asks for. -/
def Truncates (ino : AttrInode) (attr : Iattr) : Prop :=
  attr.iaValid &&& attrSize ≠ 0 ∧ attr.iaSize ≠ ino.iSize.toNat

instance (ino : AttrInode) (attr : Iattr) : Decidable (Truncates ino attr) :=
  inferInstanceAs (Decidable (_ ∧ _))

/-- `inode_setattr` -/
def inodeSetattr (s : Maint) (cur : Cred) (attr : Iattr) (r : TruncateAnswer) : ℤ × Maint :=
  if Truncates s.ino attr then
    let (error, s) := s.vmtruncate cur attr.iaSize r
    if error ≠ 0 ∨ attr.iaValid = attrSize then (error, s)
    else (0, { s with ino := s.ino.set cur attr attr.iaValid })
  else
    -- "We skipped the truncate but must still update timestamps"
    let iaValid := if attr.iaValid &&& attrSize ≠ 0 then attr.iaValid ||| (attrMtime ||| attrCtime)
      else attr.iaValid
    (0, { s with ino := s.ino.set cur attr iaValid })

/-- `iof_setattr` -/
def iofSetattr (s : Maint) (tz : ℤ) (relink : EaStore → EaStore) (cur : Cred) (attr : Iattr)
    (rt : TruncateAnswer) (rw : WriteAnswer) : ℤ × Maint :=
  let s := { s with ino := { s.ino with iaValid := s.ino.iaValid ||| attr.iaValid } }
  let (error, attr) := inodeChangeOk cur s.ino attr
  let (error, s) := if error = 0 then s.inodeSetattr cur attr rt else (error, s)
  if error = 0 then (error, s.lxafsWriteInode tz relink rw) else (error, s)

end Maint

/-! ### What durable means -/

/-- An attribute that the host has a place for. -/
inductive FileAttr
  /-- `i_size` -/
  | size
  /-- `i_atime` -/
  | atime
  /-- `i_mtime` -/
  | mtime
  /-- `i_ctime` -/
  | ctime
  /-- `i_mode` -/
  | mode
  /-- `i_uid` -/
  | uid
  /-- `i_gid` -/
  | gid
  deriving DecidableEq

/-- The bits that make an attribute pending. -/
def FileAttr.bits : FileAttr → ULONG
  | size => attrSize
  | atime => attrAtime ||| attrAtimeSet
  | mtime => attrMtime ||| attrMtimeSet
  | ctime => attrCtime
  | mode => attrMode
  | uid => attrUid
  | gid => attrGid

/-- The extended attribute in which the host has an attribute. -/
def FileAttr.eaName : FileAttr → Option Bytes
  | mode => some lxeanMode
  | uid => some lxeanUid
  | gid => some lxeanGid
  | size | atime | mtime | ctime => none

/-- The host has the inode's value of an attribute. -/
def Synced (tz : ℤ) (ino : AttrInode) (file : AttrFile) : FileAttr → Prop
  | .size => file.size = ino.iSize
  | .atime => file.dates.lastAccess = lxafsDateUnix2lx tz ino.iAtime
  | .mtime => file.dates.lastWrite = lxafsDateUnix2lx tz ino.iMtime
  | .ctime => file.dates.creation = lxafsDateUnix2lx tz ino.iCtime
  | .mode => file.ea lxeanMode = some (number (ino.iMode.setWidth 32).toInt)
  | .uid => file.ea lxeanUid = some (number ino.iUid.toInt)
  | .gid => file.ea lxeanGid = some (number ino.iGid.toInt)

namespace Maint

/-- The attribute is pending. -/
def Pending (s : Maint) (a : FileAttr) : Prop := s.ino.iaValid &&& a.bits ≠ 0

/-- What is not pending is with the host. -/
def Consistent (tz : ℤ) (s : Maint) : Prop := ∀ a, ¬ s.Pending a → Synced tz s.ino s.file a

/-- Nothing is pending, and all is with the host. -/
def Durable (tz : ℤ) (s : Maint) : Prop := ∀ a, ¬ s.Pending a ∧ Synced tz s.ino s.file a

/-- The bits that are pending when `iof_setattr` calls `lxafs_write_inode`: a truncation has written
the size already. -/
def pendingBits (ino : AttrInode) (attr : Iattr) : ULONG :=
  if Truncates ino attr then (ino.iaValid ||| attr.iaValid) &&& ~~~attrSize
  else ino.iaValid ||| attr.iaValid

/-- If the mode or the owner is pending, so is something that opens the file. -/
def OpensFile (ino : AttrInode) (attr : Iattr) : Prop :=
  pendingBits ino attr &&& (attrSize ||| attrTimes) ≠ 0 ∨ pendingBits ino attr &&& attrEas = 0

/-- The size is asked for, and it is not new. -/
def SameSize (ino : AttrInode) (attr : Iattr) : Prop :=
  attr.iaValid &&& attrSize ≠ 0 ∧ attr.iaSize = ino.iSize.toNat

instance (ino : AttrInode) (attr : Iattr) : Decidable (SameSize ino attr) :=
  inferInstanceAs (Decidable (_ ∧ _))

/-- The inode with the time stamps that `inode_setattr` changes by itself. -/
def stamped (ino : AttrInode) (attr : Iattr) : AttrInode :=
  if SameSize ino attr then { ino with iMtime := attr.iaMtime, iCtime := attr.iaCtime } else ino

/-- The host has what is neither pending nor asked for. -/
def RestSynced (tz : ℤ) (s : Maint) (attr : Iattr) : Prop :=
  ∀ a : FileAttr, (s.ino.iaValid ||| attr.iaValid) &&& a.bits = 0 →
    Synced tz (stamped s.ino attr) s.file a

/-- The host does everything it is asked for. -/
structure Succeeds (rt : TruncateAnswer) (rw : WriteAnswer) : Prop where
  /-- `iof_truncate` -/
  truncate : rt.opened.rc = 0 ∧ rt.setSize = 0
  /-- The calls with the handle in `lxafs_write_inode`. -/
  write : rw.opened.rc = 0 ∧ rw.setSize = 0 ∧ rw.query = 0 ∧ rw.setInfo = 0
  /-- The extended attributes. -/
  ea : ∀ eaName, rw.ea eaName = true

/-- The rewritten list of the links leaves the mode and the owner alone. -/
def LeavesAttrs (relink : EaStore → EaStore) : Prop :=
  ∀ (a : FileAttr), ∀ eaName ∈ a.eaName, ∀ e, relink e eaName = e eaName

/-- From `s` to `s'` the attributes `done` have been written, as far as they were pending, and the
others have been left alone. -/
structure Settles (tz : ℤ) (done : FileAttr → Prop) (s s' : Maint) : Prop where
  /-- They are not pending any more. -/
  pending : ∀ a, s'.Pending a ↔ s.Pending a ∧ ¬ done a
  /-- The host has them. -/
  synced : ∀ a, Synced tz s'.ino s'.file a ↔ s.Pending a ∧ done a ∨ Synced tz s.ino s.file a

variable {tz : ℤ} {s s' s'' : Maint} {done done' : FileAttr → Prop} {relink : EaStore → EaStore}
  {cur : Cred} {attr : Iattr} {rt : TruncateAnswer} {rw : WriteAnswer} {hFile : HFile}

theorem Settles.trans (h : Settles tz done s s') (h' : Settles tz done' s' s'') :
    Settles tz (fun a => done a ∨ done' a) s s'' where
  pending a := by
    rw [h'.pending, h.pending]
    tauto
  synced a := by
    rw [h'.synced, h.synced, h.pending]
    tauto

/-- Everything is settled. -/
theorem Settles.all (h : Settles tz done s s') (hall : ∀ a, done a) :
    Settles tz (fun _ => True) s s' := by
  have hdone : done = fun _ => True := funext fun a => eq_true (hall a)
  exact hdone ▸ h

/-- A host call by itself settles nothing. -/
theorem Settles.refl_call (c : HostCall) : Settles tz (fun _ => False) s (s.call c) where
  pending a := by simp [Pending, call]
  synced a := by simp [call]

/-- When nothing is settled, the state was durable already. -/
theorem Settles.durable_of_none (h : Settles tz (fun _ => False) s s') :
    s'.Durable tz ↔ (∀ a, ¬ s.Pending a) ∧ s.Consistent tz := by
  unfold Durable Consistent
  simp only [h.pending, h.synced, not_false_eq_true, and_true, and_false, false_or]
  exact ⟨fun hall => ⟨fun a => (hall a).1, fun a _ => (hall a).2⟩,
    fun hall a => ⟨hall.1 a, hall.2 a (hall.1 a)⟩⟩

/-- When everything is settled, what is durable is what was pending or with the host before. -/
theorem Settles.durable_iff (h : Settles tz (fun _ => True) s s') :
    s'.Durable tz ↔ s.Consistent tz := by
  unfold Durable Consistent
  refine forall_congr' fun a => ?_
  rw [h.pending, h.synced]
  tauto

/-! ### The parts of `lxafs_write_inode` -/

theorem pending_clearValid_self (s : Maint) {m : ULONG} {a : FileAttr} (h : a.bits &&& m = a.bits) :
    ¬ (s.clearValid m).Pending a :=
  not_not.2 (Flags.clear_and_of_subset _ h)

theorem pending_clearValid_of_disjoint (s : Maint) {m : ULONG} {a : FileAttr}
    (h : m &&& a.bits = 0) : (s.clearValid m).Pending a ↔ s.Pending a := by
  unfold Pending
  rw [show (s.clearValid m).ino.iaValid = s.ino.iaValid &&& ~~~m from rfl,
    Flags.clear_and_of_disjoint _ h]

theorem dosSetFileSize_opened (s : Maint) (hopen : hFile.isSome) (cbSize : ULONG) :
    s.dosSetFileSize hFile cbSize 0 = { s with
      file := { s.file with size := cbSize }
      calls := s.calls ++ [.dosSetFileSize hFile cbSize] } :=
  if_pos ⟨hopen, rfl⟩

/-- A part that finds nothing to do. -/
theorem Settles.refl_of (h : ∀ a, done a → ¬ s.Pending a) : Settles tz done s s where
  pending a := by
    have := h a
    tauto
  synced a := by
    have := h a
    tauto

theorem settles_writeSize (h : rw.setSize = 0) (hopen : hFile.isSome) :
    Settles tz (· = .size) s (s.writeSize hFile rw) := by
  unfold writeSize
  by_cases hp : s.ino.iaValid &&& attrSize ≠ 0
  · rw [if_pos hp, h, dosSetFileSize_opened s hopen]
    refine ⟨fun a => ?_, fun a => ?_⟩
    · cases a
      case size => exact iff_of_false (pending_clearValid_self _ (by decide)) (by simp)
      all_goals exact (pending_clearValid_of_disjoint _ (by decide)).trans (by simp [Pending])
    · cases a
      case size => exact iff_of_true rfl (.inl ⟨hp, rfl⟩)
      all_goals simp [Synced, clearValid]
  · rw [if_neg hp]
    exact .refl_of fun a ha => ha ▸ hp

/-- A time stamp that is pending makes `lxafs_write_inode` write the time stamps. -/
theorem Pending.times {a : FileAttr} (h : s.Pending a)
    (ha : a = .atime ∨ a = .mtime ∨ a = .ctime) : s.ino.iaValid &&& attrTimes ≠ 0 := by
  intro hnone
  simp only [attrTimes, BitVec.ofNat_eq_ofNat, Flags.and_or_eq_zero] at hnone
  apply h
  rcases ha with rfl | rfl | rfl <;>
    simp only [FileAttr.bits, BitVec.ofNat_eq_ofNat, Flags.and_or_eq_zero, hnone, and_self]

theorem writeTimes_opened (s : Maint) (tz : ℤ) (h : rw.query = 0 ∧ rw.setInfo = 0)
    (hopen : hFile.isSome) (hp : s.ino.iaValid &&& attrTimes ≠ 0) :
    s.writeTimes tz hFile rw = clearValid { s with
      file := { s.file with dates := newDates tz s.ino s.file.dates }
      calls := s.calls ++ [.dosQueryFileInfo hFile] ++
        [.dosSetFileInfo hFile (newDates tz s.ino s.file.dates)] } attrTimes := by
  unfold writeTimes dosSetFileInfo
  rw [if_pos hp]
  dsimp only
  rw [if_pos h.1, if_pos h.2, if_pos hopen, if_pos ⟨hopen, h.2⟩]
  rfl

theorem settles_writeTimes (h : rw.query = 0 ∧ rw.setInfo = 0) (hopen : hFile.isSome) :
    Settles tz (fun a => a = .atime ∨ a = .mtime ∨ a = .ctime) s (s.writeTimes tz hFile rw) := by
  by_cases hp : s.ino.iaValid &&& attrTimes ≠ 0
  · rw [writeTimes_opened s tz h hopen hp]
    refine ⟨fun a => ?_, fun a => ?_⟩
    · cases a
      case atime | mtime | ctime =>
        exact iff_of_false (pending_clearValid_self _ (by decide)) (by simp)
      all_goals exact (pending_clearValid_of_disjoint _ (by decide)).trans (by simp [Pending])
    · cases a
      case atime | mtime | ctime =>
        simp only [Synced, clearValid, newDates, Pending, FileAttr.bits, reduceCtorEq, or_false,
          or_true, and_true]
        split_ifs with hpend
        · exact iff_of_true rfl (.inl hpend)
        · exact (or_iff_right hpend).symm
      all_goals simp [Synced, clearValid]
  · unfold writeTimes
    rw [if_neg hp]
    exact .refl_of fun a ha hpend => hp (hpend.times ha)

/-- The text of a number arrives as it is. -/
theorem str_number (v : ℤ) :
    str (strncpy [] (number v) ((number v).length + 1)) = number v ∧ number v ≠ [] := by
  have hnul : NoNul (number v) := by
    rw [number_eq]
    cases v with
    | ofNat n => exact noNul_decimal n
    | negSucc n => exact List.forall_mem_cons.2 ⟨by decide, noNul_decimal _⟩
  refine ⟨?_, ?_⟩
  · rw [str_strncpy (by rw [strlen, hnul.str_eq]; exact Nat.lt_succ_self _), hnul.str_eq]
  · rw [number_eq]
    cases v with
    | ofNat n => exact decimal_ne_nil n
    | negSucc n => exact List.cons_ne_nil _ _

theorem eaName_ne {a b : FileAttr} (h : b ≠ a) {n : Bytes} (ha : a.eaName = some n) :
    a.bits &&& b.bits = 0 ∧ n ∉ b.eaName := by
  cases a <;> cases b <;> simp [FileAttr.eaName] at h ha ⊢ <;> subst ha <;> decide

/-- An attribute depends on no other extended attribute than its own. -/
theorem synced_congr {ino : AttrInode} {file : AttrFile} {e : EaStore} {a : FileAttr}
    (h : ∀ n ∈ a.eaName, e n = file.ea n) :
    Synced tz ino { file with ea := e } a ↔ Synced tz ino file a := by
  cases a
  case mode | uid | gid =>
    have hn := h _ rfl
    simp only [Synced, hn]
  all_goals exact Iff.rfl

/-- The flags say nothing about the values. -/
theorem synced_flags {ino : AttrInode} {file : AttrFile} {a : FileAttr} (v d : ULONG) :
    Synced tz { ino with iaValid := v, dirtyFlag := d } file a ↔ Synced tz ino file a := by
  cases a <;> exact Iff.rfl

/-- An attribute that is written by the name of the file gets its text. -/
theorem settles_writeEaIf {a : FileAttr} {eaName : Bytes} {value : ULONG} {ok : Bytes → Bool}
    (hok : ok eaName = true) (hname : a.eaName = some eaName)
    (hvalue : ∀ file, Synced tz s.ino file a ↔ file.ea eaName = some (number value.toInt)) :
    Settles tz (· = a) s (s.writeEaIf a.bits eaName value ok) := by
  unfold writeEaIf lxafsWriteEa
  by_cases hp : s.ino.iaValid &&& a.bits ≠ 0
  · obtain ⟨hstr, hne⟩ := str_number value.toInt
    rw [if_pos hp]
    dsimp only
    rw [if_pos hok, eahWriteStringEA, hstr, if_neg hne]
    refine ⟨fun b => ?_, fun b => ?_⟩
    · by_cases hb : b = a
      · subst hb
        exact iff_of_false (pending_clearValid_self _ (by simp)) (by simp)
      · refine (pending_clearValid_of_disjoint _ (eaName_ne hb hname).1).trans ?_
        simp [Pending, call, hb]
    · by_cases hb : b = a
      · subst hb
        refine iff_of_true ((hvalue _).2 ?_) (.inl ⟨hp, rfl⟩)
        exact Function.update_self ..
      · have hsame : ∀ n ∈ b.eaName, Function.update s.file.ea eaName
            (some (number value.toInt)) n = s.file.ea n := by
          intro n hn
          refine Function.update_of_ne ?_ _ _
          rintro rfl
          exact (eaName_ne hb hname).2 hn
        exact ((synced_flags _ _).trans (synced_congr hsame)).trans (by simp [hb, call])
  · rw [if_neg hp]
    exact .refl_of fun b hb => hb ▸ hp

/-- `lxafs_rewrite_linklist` leaves the mode and the owner alone, with the dummy files of the links
being other files. -/
theorem leavesAttrs_rewriteLinklist {κ : Type} [DecidableEq κ] (key : PathName → κ) (host : EaHost)
    (own : PathName) {l : List PathName} {dirtyFlag : ULONG}
    (hchilds : dirtyFlag &&& EaSys.lxafsDirtyLinkchilds ≠ 0 → ∀ n ∈ l, key n ≠ key own)
    (alloc : ULONG) (opened : PathName → Bool) (eas : κ → EaStore) :
    LeavesAttrs fun e => (EaSys.rewriteLinklist key host own l dirtyFlag alloc opened
      ⟨Function.update eas (key own) e, []⟩).2.view (key own) := by
  intro a eaName ha e
  have hother : eaName ≠ lxeanLinkbycount ∧ ∀ i, eaName ≠ linkedBy i := by
    cases a <;> simp only [FileAttr.eaName, Option.mem_def, Option.some.injEq, reduceCtorEq] at ha
    all_goals
      subst ha
      refine ⟨by decide, fun i h => ?_⟩
      rw [linkedBy_eq] at h
      cases h
  dsimp only
  rw [EaSys.view_rewriteLinklist_of_ne hother.1 hother.2 hchilds]
  exact congrFun (Function.update_self ..) _

/-! ### `lxafs_write_inode` -/

theorem lxafsOpenInodeForMaintenance_opened {r : DosOpenAnswer} (hlx : s.ino.lxafs = true)
    (hrc : r.rc = 0) :
    s.lxafsOpenInodeForMaintenance r = (0, some r.hFile, s.call (.dosOpen s.ino.iSize)) := by
  simp [lxafsOpenInodeForMaintenance, hlx, hrc]

/-- The parts of `lxafs_write_inode` after the file has been opened. -/
theorem settles_opened (tz : ℤ) (s : Maint) (h : Succeeds rt rw) (hopen : hFile.isSome) :
    Settles tz (fun _ => True) s
      (let s := ((s.writeSize hFile rw).writeTimes tz hFile rw).call (.dosClose hFile)
       let s := s.writeEaIf attrMode lxeanMode (s.ino.iMode.setWidth 32) rw.ea
       let s := s.writeEaIf attrUid lxeanUid s.ino.iUid rw.ea
       s.writeEaIf attrGid lxeanGid s.ino.iGid rw.ea) := by
  have h₁ : Settles tz (· = .size) s (s.writeSize hFile rw) := settles_writeSize h.write.2.1 hopen
  have h₂ := h₁.trans (settles_writeTimes ⟨h.write.2.2.1, h.write.2.2.2⟩ hopen)
  have h₃ := h₂.trans (Settles.refl_call (.dosClose hFile))
  have h₄ := h₃.trans (settles_writeEaIf (a := .mode) (h.ea _) rfl fun _ => Iff.rfl)
  have h₅ := h₄.trans (settles_writeEaIf (a := .uid) (h.ea _) rfl fun _ => Iff.rfl)
  have h₆ := h₅.trans (settles_writeEaIf (a := .gid) (h.ea _) rfl fun _ => Iff.rfl)
  exact h₆.all fun a => by cases a <;> simp

/-- Rewriting the list of the links changes neither what is pending nor what the host has. -/
theorem settles_relink (h : LeavesAttrs relink) (d : ULONG) :
    Settles tz (fun _ => False) s { s with
      file := { s.file with ea := relink s.file.ea }, ino := { s.ino with dirtyFlag := d } } where
  pending a := by simp [Pending]
  synced a := by
    have hsame : Synced tz s.ino { s.file with ea := relink s.file.ea } a ↔
        Synced tz s.ino s.file a := synced_congr fun n hn => h a n hn s.file.ea
    exact ((synced_flags s.ino.iaValid d).trans hsame).trans (by simp)

/-- `lxafs_write_inode` while the host does everything: it settles all, or nothing is pending that
opens the file. -/
theorem settles_lxafsWriteInode (tz : ℤ) (h : Succeeds rt rw) (hrelink : LeavesAttrs relink)
    (hreg : sIsreg s.ino.iMode = true) (hlx : s.ino.lxafs = true) :
    (s.ino.iaValid &&& (attrSize ||| attrTimes) ≠ 0 →
      Settles tz (fun _ => True) s (s.lxafsWriteInode tz relink rw)) ∧
    (s.ino.iaValid &&& (attrSize ||| attrTimes) = 0 →
      Settles tz (fun _ => False) s (s.lxafsWriteInode tz relink rw)) := by
  unfold lxafsWriteInode
  rw [if_pos hreg]
  generalize hs₁ : (if s.ino.dirtyFlag &&& (lxafsDirtyLinklist ||| EaSys.lxafsDirtyLinkchilds) ≠ 0
    then _ else s) = s₁
  have hrelinked : Settles tz (fun _ => False) s s₁ ∧ s₁.ino.iaValid = s.ino.iaValid ∧
      s₁.ino.lxafs = s.ino.lxafs := by
    subst hs₁
    split_ifs
    · exact ⟨settles_relink hrelink _, rfl, rfl⟩
    · exact ⟨.refl_of nofun, rfl, rfl⟩
  obtain ⟨hsettles, hvalid, hlx₁⟩ := hrelinked
  dsimp only
  rw [hvalid]
  refine ⟨fun hp => ?_, fun hp => ?_⟩
  · rw [if_pos hp, lxafsOpenInodeForMaintenance_opened (hlx₁.trans hlx) h.write.1]
    have hfile : (some rw.opened.hFile).isSome = true := rfl
    have hopened := settles_opened tz (s₁.call (.dosOpen s₁.ino.iSize)) h hfile
    exact ((hsettles.trans (.refl_call _)).trans hopened).all fun _ => .inr trivial
  · rw [if_neg (not_not.2 hp)]
    exact hsettles

/-! ### `inode_setattr` -/

theorem sIsreg_clear_isgid (mode : BitVec 16) : sIsreg (mode &&& ~~~sIsgid) = sIsreg mode := by
  unfold sIsreg
  rw [Flags.clear_and_of_disjoint _ (by decide)]

/-- `inode_change_ok` changes at most a bit of the mode, which is not one of the file's type. -/
theorem inodeChangeOk_attr (cur : Cred) (ino : AttrInode) (attr : Iattr) :
    ∃ mode, sIsreg mode = sIsreg attr.iaMode ∧
      (inodeChangeOk cur ino attr).2 = { attr with iaMode := mode } := by
  unfold inodeChangeOk
  dsimp only
  split_ifs
  all_goals first
    | exact ⟨attr.iaMode, rfl, rfl⟩
    | exact ⟨_, sIsreg_clear_isgid attr.iaMode, rfl⟩

/-- What `inode_setattr` sets. -/
theorem set_fields (ino : AttrInode) (cur : Cred) (attr : Iattr) (w : ULONG) :
    (ino.set cur attr w).iUid = (if w &&& attrUid ≠ 0 then attr.iaUid else ino.iUid) ∧
    (ino.set cur attr w).iGid = (if w &&& attrGid ≠ 0 then attr.iaGid else ino.iGid) ∧
    (ino.set cur attr w).iAtime = (if w &&& attrAtime ≠ 0 then attr.iaAtime else ino.iAtime) ∧
    (ino.set cur attr w).iMtime = (if w &&& attrMtime ≠ 0 then attr.iaMtime else ino.iMtime) ∧
    (ino.set cur attr w).iCtime = (if w &&& attrCtime ≠ 0 then attr.iaCtime else ino.iCtime) := by
  unfold AttrInode.set
  dsimp only
  by_cases h : w &&& attrMode ≠ 0
  · rw [if_pos h]
    exact ⟨rfl, rfl, rfl, rfl, rfl⟩
  · rw [if_neg h]
    exact ⟨rfl, rfl, rfl, rfl, rfl⟩

/-- What it leaves alone. -/
theorem set_frame (ino : AttrInode) (cur : Cred) (attr : Iattr) (w : ULONG) :
    (ino.set cur attr w).iSize = ino.iSize ∧ (ino.set cur attr w).lxafs = ino.lxafs ∧
      (ino.set cur attr w).iaValid = ino.iaValid ∧
      (w &&& attrMode = 0 → (ino.set cur attr w).iMode = ino.iMode) := by
  unfold AttrInode.set
  dsimp only
  by_cases h : w &&& attrMode ≠ 0
  · rw [if_pos h]
    exact ⟨rfl, rfl, rfl, fun h' => absurd h' h⟩
  · rw [if_neg h]
    exact ⟨rfl, rfl, rfl, fun _ => rfl⟩

theorem sIsreg_set {ino : AttrInode} {w : ULONG} (hreg : sIsreg ino.iMode = true)
    (hmode : w &&& attrMode ≠ 0 → sIsreg attr.iaMode = true) :
    sIsreg (ino.set cur attr w).iMode = true := by
  by_cases h : w &&& attrMode ≠ 0
  · unfold AttrInode.set
    rw [if_pos h]
    dsimp only
    split_ifs
    all_goals first | exact hmode h | exact (sIsreg_clear_isgid _).trans (hmode h)
  · rw [(set_frame ino cur attr w).2.2.2 (not_not.1 h)]
    exact hreg

/-- An attribute that is not among those to be set keeps its value. -/
theorem synced_set {ino : AttrInode} {file : AttrFile} {a : FileAttr} {w : ULONG}
    (h : w &&& a.bits = 0) :
    Synced tz (ino.set cur attr w) file a ↔ Synced tz ino file a := by
  obtain ⟨huid, hgid, hatime, hmtime, hctime⟩ := set_fields ino cur attr w
  obtain ⟨hsize, -, -, hmode⟩ := set_frame ino cur attr w
  cases a with
  | size => simp only [Synced, hsize]
  | atime =>
    have hbit : w &&& attrAtime = 0 := (Flags.and_or_eq_zero.1 h).1
    rw [if_neg (not_not.2 hbit)] at hatime
    simp only [Synced, hatime]
  | mtime =>
    have hbit : w &&& attrMtime = 0 := (Flags.and_or_eq_zero.1 h).1
    rw [if_neg (not_not.2 hbit)] at hmtime
    simp only [Synced, hmtime]
  | ctime =>
    have hbit : w &&& attrCtime = 0 := h
    rw [if_neg (not_not.2 hbit)] at hctime
    simp only [Synced, hctime]
  | mode => simp only [Synced, hmode h]
  | uid =>
    have hbit : w &&& attrUid = 0 := h
    rw [if_neg (not_not.2 hbit)] at huid
    simp only [Synced, huid]
  | gid =>
    have hbit : w &&& attrGid = 0 := h
    rw [if_neg (not_not.2 hbit)] at hgid
    simp only [Synced, hgid]

/-- `iof_truncate` with the file open brings the host's file to the inode's size. -/
theorem iofTruncate_opened (hlx : s.ino.lxafs = true) (h : Succeeds rt rw) :
    s.iofTruncate rt = clearValid { s with
      file := { s.file with size := s.ino.iSize }
      calls := s.calls ++ [.dosOpen s.ino.iSize] ++
        [.dosSetFileSize (some rt.opened.hFile) s.ino.iSize] ++
        [.dosClose (some rt.opened.hFile)] } attrSize := by
  unfold iofTruncate
  rw [lxafsOpenInodeForMaintenance_opened hlx h.truncate.1, h.truncate.2]
  dsimp only
  rw [if_pos (by decide), if_pos rfl, dosSetFileSize_opened _ rfl]
  rfl

/-- Setting nothing but the size sets nothing. -/
theorem set_attrSize (ino : AttrInode) (cur : Cred) (attr : Iattr) :
    ino.set cur attr attrSize = ino := by
  unfold AttrInode.set
  rfl

/-- The inode with its new size. -/
def sized (s : Maint) (offset : ℕ) : Maint :=
  { s with ino := { s.ino with iSize := BitVec.ofNat 32 offset } }

/-- `inode_setattr` when it succeeds. -/
theorem inodeSetattr_ok (hret : (s.inodeSetattr cur attr rt).1 = 0) :
    (Truncates s.ino attr →
      let t := (s.sized attr.iaSize).iofTruncate rt
      (s.inodeSetattr cur attr rt).2 = { t with ino := t.ino.set cur attr attr.iaValid }) ∧
    (¬ Truncates s.ino attr → (s.inodeSetattr cur attr rt).2 = { s with
      ino := s.ino.set cur attr (if attr.iaValid &&& attrSize ≠ 0 then
        attr.iaValid ||| (attrMtime ||| attrCtime) else attr.iaValid) }) := by
  unfold inodeSetattr at hret ⊢
  refine ⟨fun ht => ?_, fun ht => ?_⟩
  · rw [if_pos ht] at hret ⊢
    have hvm : (s.vmtruncate cur attr.iaSize rt).1 = 0 := by
      by_contra hne
      dsimp only at hret
      rw [if_pos (.inl hne)] at hret
      exact hne hret
    have htrunc : s.vmtruncate cur attr.iaSize rt =
        (0, (s.sized attr.iaSize).iofTruncate rt) := by
      have hbig : (-errEFBIG : ℤ) ≠ 0 := by decide
      revert hvm
      unfold vmtruncate
      dsimp only
      split_ifs <;> first | exact fun h => absurd h hbig | exact fun _ => rfl
    rw [htrunc]
    dsimp only
    by_cases hv : attr.iaValid = attrSize
    · rw [if_pos (.inr hv), hv, set_attrSize]
    · rw [if_neg (not_or.2 ⟨not_not.2 rfl, hv⟩)]
  · rw [if_neg ht]

theorem pending_set (w : ULONG) (a : FileAttr) :
    Pending { s with ino := s.ino.set cur attr w } a ↔ s.Pending a := by
  unfold Pending
  rw [(set_frame s.ino cur attr w).2.2.1]

/-- What `iof_setattr` has before it calls `lxafs_write_inode`. -/
theorem pending_inodeSetattr (hlx : s.ino.lxafs = true) (h : Succeeds rt rw)
    (hret : (s.inodeSetattr cur attr rt).1 = 0) :
    (s.inodeSetattr cur attr rt).2.ino.iaValid =
        (if Truncates s.ino attr then s.ino.iaValid &&& ~~~attrSize else s.ino.iaValid) ∧
      (s.inodeSetattr cur attr rt).2.ino.lxafs = s.ino.lxafs := by
  obtain ⟨htrunc, hskip⟩ := inodeSetattr_ok hret
  by_cases ht : Truncates s.ino attr
  · rw [htrunc ht, if_pos ht, iofTruncate_opened (by exact hlx) h]
    exact ⟨(set_frame _ cur attr _).2.2.1, (set_frame _ cur attr _).2.1⟩
  · rw [hskip ht, if_neg ht]
    exact ⟨(set_frame _ cur attr _).2.2.1, (set_frame _ cur attr _).2.1⟩

theorem sIsreg_inodeSetattr (hlx : s.ino.lxafs = true) (h : Succeeds rt rw)
    (hret : (s.inodeSetattr cur attr rt).1 = 0) (hreg : sIsreg s.ino.iMode = true)
    (hmode : attr.iaValid &&& attrMode ≠ 0 → sIsreg attr.iaMode = true) :
    sIsreg (s.inodeSetattr cur attr rt).2.ino.iMode = true := by
  obtain ⟨htrunc, hskip⟩ := inodeSetattr_ok hret
  by_cases ht : Truncates s.ino attr
  · rw [htrunc ht, iofTruncate_opened (by exact hlx) h]
    exact sIsreg_set hreg hmode
  · rw [hskip ht]
    refine sIsreg_set hreg fun hw => hmode fun hnone => hw ?_
    split_ifs
    · exact Flags.or_and_eq_zero.2 ⟨hnone, by decide⟩
    · exact hnone

/-- What is neither pending nor asked for has been left alone by `inode_setattr`, but for the time
stamps of a size that is not new. -/
theorem consistent_inodeSetattr (hlx : s.ino.lxafs = true) (h : Succeeds rt rw)
    (hret : (s.inodeSetattr cur attr rt).1 = 0)
    (hpend : ∀ a : FileAttr, attr.iaValid &&& a.bits ≠ 0 → s.Pending a) :
    (s.inodeSetattr cur attr rt).2.Consistent tz ↔
      ∀ a, ¬ s.Pending a → Synced tz (stamped s.ino attr) s.file a := by
  obtain ⟨htrunc, hskip⟩ := inodeSetattr_ok hret
  refine forall_congr' fun a => ?_
  have hnone : ¬ s.Pending a → attr.iaValid &&& a.bits = 0 :=
    fun hp => not_not.1 fun hv => hp (hpend a hv)
  by_cases ht : Truncates s.ino attr
  · rw [htrunc ht, iofTruncate_opened (by exact hlx) h, stamped, if_neg fun hsame => ht.2 hsame.2]
    by_cases hsize : a = .size
    · -- The size is with the host, and it was pending before.
      subst hsize
      refine iff_of_true (fun _ => ?_) fun hp => absurd (hpend .size ht.1) hp
      simp only [Synced, (set_frame _ cur attr _).1]
      rfl
    · have hdisj : attrSize &&& a.bits = 0 := by
        cases a <;> first | exact absurd rfl hsize | decide
      refine imp_congr_ctx ?_ fun hp => ?_
      · exact ((pending_set _ a).trans (pending_clearValid_of_disjoint _ hdisj)).not
      · refine (synced_set (hnone hp)).trans ?_
        cases a <;> first | exact absurd rfl hsize | exact Iff.rfl
  · rw [hskip ht]
    refine imp_congr_ctx (pending_set _ a).not fun hp => ?_
    by_cases hsize : attr.iaValid &&& attrSize ≠ 0
    · have hsame : attr.iaSize = s.ino.iSize.toNat := not_not.1 fun hne => ht ⟨hsize, hne⟩
      rw [if_pos hsize, stamped, if_pos ⟨hsize, hsame⟩]
      generalize hw : attr.iaValid ||| (attrMtime ||| attrCtime) = w
      have hstamp : ∀ m : ULONG, (attrMtime ||| attrCtime) &&& m ≠ 0 → w &&& m ≠ 0 :=
        fun m hm hnone => hm (Flags.or_and_eq_zero.1 (hw ▸ hnone)).2
      obtain ⟨-, -, -, hmtime, hctime⟩ := set_fields s.ino cur attr w
      rw [if_pos (hstamp _ (by decide))] at hmtime hctime
      cases a
      case mtime => simp only [Synced, hmtime]
      case ctime => simp only [Synced, hctime]
      all_goals exact synced_set (hw ▸ Flags.or_and_eq_zero.2 ⟨hnone hp, by decide⟩)
    · rw [if_neg hsize, stamped, if_neg fun hsame => hsize hsame.1]
      exact synced_set (hnone hp)

/-! ### `iof_setattr` -/

/-- `iof_setattr` when it succeeds: `inode_setattr` and `lxafs_write_inode` from an inode with more
pending. -/
theorem iofSetattr_ok (hret : (s.iofSetattr tz relink cur attr rt rw).1 = 0) :
    let t : Maint := { s with ino := { s.ino with iaValid := s.ino.iaValid ||| attr.iaValid } }
    let attr' := (inodeChangeOk cur t.ino attr).2
    (t.inodeSetattr cur attr' rt).1 = 0 ∧ (s.iofSetattr tz relink cur attr rt rw).2 =
      (t.inodeSetattr cur attr' rt).2.lxafsWriteInode tz relink rw := by
  unfold iofSetattr at hret ⊢
  dsimp only at hret ⊢
  by_cases hok : (inodeChangeOk cur { s.ino with iaValid := s.ino.iaValid ||| attr.iaValid } attr).1
      = 0
  · rw [if_pos hok] at hret ⊢
    by_cases herr : (inodeSetattr { s with
        ino := { s.ino with iaValid := s.ino.iaValid ||| attr.iaValid } } cur
        (inodeChangeOk cur { s.ino with iaValid := s.ino.iaValid ||| attr.iaValid } attr).2
        rt).1 = 0
    · rw [if_pos herr]
      exact ⟨herr, rfl⟩
    · rw [if_neg herr] at hret
      exact absurd hret herr
  · rw [if_neg hok, if_neg hok] at hret
    exact absurd hret hok

/-- What is asked for is pending when `inode_setattr` is called. -/
theorem pending_or (v : ULONG) (a : FileAttr) (h : v &&& a.bits ≠ 0) :
    Pending { s with ino := { s.ino with iaValid := s.ino.iaValid ||| v } } a :=
  fun hnone => h (Flags.or_and_eq_zero.1 hnone).2

/-- Nothing is pending exactly if nothing that opens the file is, and neither mode nor owner. -/
theorem forall_not_pending_iff :
    (∀ a, ¬ s.Pending a) ↔
      s.ino.iaValid &&& (attrSize ||| attrTimes) = 0 ∧ s.ino.iaValid &&& attrEas = 0 := by
  simp only [attrTimes, attrEas, BitVec.ofNat_eq_ofNat, Flags.and_or_eq_zero, Pending, not_not]
  refine ⟨fun h => ?_, fun h a => ?_⟩
  · have ha := Flags.and_or_eq_zero.1 (h .atime)
    have hm := Flags.and_or_eq_zero.1 (h .mtime)
    exact ⟨⟨h .size, ⟨⟨⟨ha.1, hm.1⟩, h .ctime⟩, ha.2⟩, hm.2⟩, ⟨h .mode, h .uid⟩, h .gid⟩
  · obtain ⟨⟨hsize, ⟨⟨⟨ha, hm⟩, hc⟩, has⟩, hms⟩, ⟨hmode, huid⟩, hgid⟩ := h
    cases a with
    | size => exact hsize
    | atime => exact Flags.and_or_eq_zero.2 ⟨ha, has⟩
    | mtime => exact Flags.and_or_eq_zero.2 ⟨hm, hms⟩
    | ctime => exact hc
    | mode => exact hmode
    | uid => exact huid
    | gid => exact hgid

/-- `lxafs_write_inode` while the host does everything. -/
theorem durable_lxafsWriteInode (h : Succeeds rt rw) (hrelink : LeavesAttrs relink)
    (hreg : sIsreg s.ino.iMode = true) (hlx : s.ino.lxafs = true) :
    (s.lxafsWriteInode tz relink rw).Durable tz ↔
      (s.ino.iaValid &&& (attrSize ||| attrTimes) ≠ 0 ∨ s.ino.iaValid &&& attrEas = 0) ∧
        s.Consistent tz := by
  obtain ⟨hopens, hleaves⟩ := settles_lxafsWriteInode tz h hrelink hreg hlx
  by_cases hp : s.ino.iaValid &&& (attrSize ||| attrTimes) = 0
  · rw [(hleaves hp).durable_of_none, forall_not_pending_iff]
    simp only [hp, true_and, ne_eq, not_true_eq_false, false_or]
  · rw [(hopens hp).durable_iff]
    simp only [hp, ne_eq, not_false_eq_true, true_or, true_and]

/-- **Changed attributes are durable** after an `iof_setattr` that returns 0, while the host does
everything, exactly if the mode and the owner are not pending alone, and what is neither pending nor
asked for is with the host. -/
theorem durable_iofSetattr_iff (hreg : sIsreg s.ino.iMode = true) (hlx : s.ino.lxafs = true)
    (hmode : attr.iaValid &&& attrMode ≠ 0 → sIsreg attr.iaMode = true)
    (hrelink : LeavesAttrs relink) (h : Succeeds rt rw)
    (hret : (s.iofSetattr tz relink cur attr rt rw).1 = 0) :
    (s.iofSetattr tz relink cur attr rt rw).2.Durable tz ↔
      OpensFile s.ino attr ∧ RestSynced tz s attr := by
  obtain ⟨hok, heq⟩ := iofSetattr_ok hret
  obtain ⟨mode, hmode', hattr⟩ := inodeChangeOk_attr cur
    { s.ino with iaValid := s.ino.iaValid ||| attr.iaValid } attr
  dsimp only at hok heq
  rw [hattr] at hok heq
  have hpend := pending_inodeSetattr (by exact hlx) h hok
  have hreg' := sIsreg_inodeSetattr (by exact hlx) h hok (by exact hreg)
    fun hv => hmode'.trans (hmode hv)
  rw [heq, durable_lxafsWriteInode h hrelink hreg' (hpend.2.trans hlx), hpend.1,
    consistent_inodeSetattr (by exact hlx) h hok (pending_or attr.iaValid)]
  refine and_congr Iff.rfl (forall_congr' fun a => ?_)
  have hstamped : stamped { s.ino with iaValid := s.ino.iaValid ||| attr.iaValid }
      { attr with iaMode := mode } =
      { stamped s.ino attr with iaValid := s.ino.iaValid ||| attr.iaValid } := by
    by_cases hsame : SameSize s.ino attr
    · rw [stamped, stamped, if_pos hsame]
      exact if_pos hsame
    · rw [stamped, stamped, if_neg hsame]
      exact if_neg hsame
  rw [hstamped]
  exact imp_congr not_not (synced_flags _ _)

/-- A regular file of the superuser, without extended attributes. -/
def plainFile : Maint where
  ino := ⟨0o100644, 0, 0, 0, 315532800, 315532800, 315532800, true, 0, 0⟩
  file :=
    let dates := lxafsDateUnix2lx 0 315532800
    ⟨0, ⟨dates, dates, dates⟩, fun _ => none⟩
  calls := []

/-- The superuser. -/
def superuser : Cred := ⟨0, true, true, true, fun _ => true, none⟩

/-- `iof_truncate` and `lxafs_write_inode` without an error. -/
def noError : TruncateAnswer × WriteAnswer :=
  (⟨⟨0, 1⟩, 0⟩, ⟨⟨0, 1⟩, 0, 0, plainFile.file.dates, 0, fun _ => true⟩)

theorem succeeds_noError : Succeeds noError.1 noError.2 :=
  ⟨⟨rfl, rfl⟩, ⟨rfl, rfl, rfl, rfl⟩, fun _ => rfl⟩

/-- All attributes are changed together. -/
theorem durable_iofSetattr_allBits :
    (plainFile.iofSetattr 0 id superuser ⟨511, 0o100600, 100, 100, 5, 7, 8, 9⟩ noError.1
      noError.2).2.Durable 0 :=
  (durable_iofSetattr_iff rfl rfl (fun _ => rfl) (fun _ _ _ _ => rfl) succeeds_noError
    (by decide)).2 ⟨.inl (by decide), fun a h => absurd h (by cases a <;> decide)⟩

/-- A mode that is changed alone stays pending, and the host does not get it. -/
theorem not_durable_chmod :
    let r := plainFile.iofSetattr 0 id superuser ⟨attrMode, 0o100600, 0, 0, 0, 0, 0, 0⟩ noError.1
      noError.2
    r.1 = 0 ∧ r.2.Pending .mode ∧ r.2.file.ea lxeanMode = none ∧ ¬ r.2.Durable 0 := by
  have hpend : (plainFile.iofSetattr 0 id superuser ⟨attrMode, 0o100600, 0, 0, 0, 0, 0, 0⟩ noError.1
      noError.2).2.Pending .mode := by
    unfold Pending
    decide
  exact ⟨rfl, hpend, rfl, fun h => (h .mode).1 hpend⟩

/-! ### Failures -/

/-- The number of calls with a handle that the host has not given. -/
def unopened (s : Maint) : ℕ := s.calls.countP HostCall.unopened

/-- `lxafs_open_inode_for_maintenance` fails. -/
def OpenFails (s : Maint) (r : DosOpenAnswer) : Prop := s.ino.lxafs = false ∨ r.rc ≠ 0

/-- No call is made without a handle, and everything stays pending. -/
def Untouched (s s' : Maint) : Prop :=
  s'.unopened = s.unopened ∧ s'.ino.iaValid = s.ino.iaValid

/-- A larger size is beyond a limit. -/
def TooBig (cur : Cred) (ino : AttrInode) (offset : ℕ) : Prop :=
  ino.iSize.toNat < offset ∧ ((∃ limit ∈ cur.rlimFsize, limit < offset) ∨ sMaxbytes < offset)

/-- `inode_change_ok` returns an error, or the size is too big. -/
def Refused (cur : Cred) (ino : AttrInode) (attr : Iattr) : Prop :=
  (inodeChangeOk cur ino attr).1 ≠ 0 ∨ Truncates ino attr ∧ TooBig cur ino attr.iaSize

/-- `lxafs_write_inode` opens the file. -/
def WriteOpens (ino : AttrInode) : Prop :=
  sIsreg ino.iMode = true ∧ ino.iaValid &&& (attrSize ||| attrTimes) ≠ 0

/-- A call that can fail. -/
inductive MaintCall
  /-- `iof_setattr` -/
  | setattr (tz : ℤ) (relink : EaStore → EaStore) (cur : Cred) (attr : Iattr) (rt : TruncateAnswer)
    (rw : WriteAnswer)
  /-- `lxafs_write_inode` -/
  | writeInode (tz : ℤ) (relink : EaStore → EaStore) (rw : WriteAnswer)
  /-- `iof_truncate` -/
  | truncate (rt : TruncateAnswer)

/-- If the call fails, it leaves no trace. -/
def NoTrace (s : Maint) : MaintCall → Prop
  | .setattr tz relink cur attr rt rw =>
    (s.iofSetattr tz relink cur attr rt rw).1 ≠ 0 →
      (s.iofSetattr tz relink cur attr rt rw).2.ino.iaValid = s.ino.iaValid
  | .writeInode tz relink rw =>
    WriteOpens s.ino → s.OpenFails rw.opened → s.Untouched (s.lxafsWriteInode tz relink rw)
  | .truncate rt => s.OpenFails rt.opened → s.Untouched (s.iofTruncate rt)

/-- What is refused is pending already, and the file can be opened. -/
def FailsCleanly (s : Maint) : MaintCall → Prop
  | .setattr _ _ cur attr _ _ => Refused cur s.ino attr → attr.iaValid &&& ~~~s.ino.iaValid = 0
  | .writeInode _ _ rw => WriteOpens s.ino → ¬ s.OpenFails rw.opened
  | .truncate rt => ¬ s.OpenFails rt.opened

theorem unopened_call (s : Maint) (c : HostCall) :
    (s.call c).unopened = s.unopened + if c.unopened = true then 1 else 0 := by
  rw [unopened, call, List.countP_append, List.countP_singleton]
  rfl

theorem le_unopened_call (s : Maint) (c : HostCall) : s.unopened ≤ (s.call c).unopened :=
  (unopened_call s c).symm ▸ Nat.le_add_right ..

theorem le_unopened_dosSetFileSize (s : Maint) (hFile : HFile) (cbSize rc : ULONG) :
    s.unopened ≤ (s.dosSetFileSize hFile cbSize rc).unopened := by
  unfold dosSetFileSize
  dsimp only
  split_ifs <;> exact le_unopened_call ..

theorem le_unopened_writeSize (s : Maint) : s.unopened ≤ (s.writeSize hFile rw).unopened := by
  unfold writeSize
  dsimp only
  split_ifs
  · exact le_unopened_dosSetFileSize ..
  · exact le_unopened_dosSetFileSize ..
  · exact le_rfl

theorem le_unopened_dosSetFileInfo (s : Maint) (hFile : HFile) (fs : FileDates) (rc : ULONG) :
    s.unopened ≤ (s.dosSetFileInfo hFile fs rc).unopened := by
  unfold dosSetFileInfo
  dsimp only
  split_ifs <;> exact le_unopened_call ..

theorem le_unopened_writeTimes (s : Maint) : s.unopened ≤ (s.writeTimes tz hFile rw).unopened := by
  have hset (fs : FileDates) : s.unopened ≤
      ((s.call (.dosQueryFileInfo hFile)).dosSetFileInfo hFile fs rw.setInfo).unopened :=
    (le_unopened_call ..).trans (le_unopened_dosSetFileInfo ..)
  unfold writeTimes
  dsimp only
  split_ifs
  · exact hset _
  · exact hset _
  · exact hset _
  · exact hset _
  · exact le_unopened_call ..
  · exact le_rfl

theorem le_unopened_writeEaIf (s : Maint) (m : ULONG) (eaName : Bytes) (value : ULONG)
    (ok : Bytes → Bool) : s.unopened ≤ (s.writeEaIf m eaName value ok).unopened := by
  unfold writeEaIf lxafsWriteEa
  dsimp only
  split_ifs
  · exact le_unopened_call ..
  · exact le_unopened_call ..
  · exact le_rfl

theorem lxafsOpenInodeForMaintenance_fails {r : DosOpenAnswer} (h : s.OpenFails r) :
    ∃ rc s', s.lxafsOpenInodeForMaintenance r = (rc, none, s') ∧ s'.unopened = s.unopened := by
  unfold lxafsOpenInodeForMaintenance
  by_cases hlx : s.ino.lxafs = true
  · have hrc : r.rc ≠ 0 := h.resolve_left (by simp [hlx])
    rw [if_pos hlx]
    dsimp only
    rw [if_pos hrc]
    exact ⟨_, _, rfl, unopened_call ..⟩
  · rw [if_neg hlx]
    exact ⟨_, _, rfl, rfl⟩

/-- A handle that has not been opened is closed. -/
theorem unopened_dosClose (s : Maint) : (s.call (.dosClose none)).unopened = s.unopened + 1 :=
  unopened_call ..

/-- `iof_truncate` goes on when the file cannot be opened. -/
theorem lt_unopened_iofTruncate (h : s.OpenFails rt.opened) :
    s.unopened < (s.iofTruncate rt).unopened := by
  obtain ⟨rc, s', heq, hs'⟩ := lxafsOpenInodeForMaintenance_fails h
  have hsize := le_unopened_dosSetFileSize s' none s'.ino.iSize rt.setSize
  unfold iofTruncate
  rw [heq]
  dsimp only
  rw [if_pos (BitVec.le_def.2 (Nat.zero_le _)), unopened_dosClose]
  split_ifs
  · exact Nat.lt_succ_of_le (hs' ▸ hsize)
  · exact Nat.lt_succ_of_le (hs' ▸ hsize)

/-- `lxafs_write_inode` goes on when the file cannot be opened. -/
theorem lt_unopened_lxafsWriteInode (hopens : WriteOpens s.ino) (h : s.OpenFails rw.opened) :
    s.unopened < (s.lxafsWriteInode tz relink rw).unopened := by
  unfold lxafsWriteInode
  rw [if_pos hopens.1]
  generalize hs₁ : (if s.ino.dirtyFlag &&& (lxafsDirtyLinklist ||| EaSys.lxafsDirtyLinkchilds) ≠ 0
    then _ else s) = s₁
  have hrelinked : s₁.ino.iaValid = s.ino.iaValid ∧ s₁.ino.lxafs = s.ino.lxafs ∧
      s₁.unopened = s.unopened := by
    subst hs₁
    split_ifs <;> exact ⟨rfl, rfl, rfl⟩
  obtain ⟨hvalid, hlx, hcalls⟩ := hrelinked
  have h₁ : s₁.OpenFails rw.opened := h.imp hlx.trans id
  obtain ⟨rc, s₂, heq, hs₂⟩ := lxafsOpenInodeForMaintenance_fails h₁
  dsimp only
  rw [hvalid, if_pos hopens.2, heq]
  dsimp only
  rw [if_pos (BitVec.le_def.2 (Nat.zero_le _))]
  refine lt_of_lt_of_le ?_ ((le_unopened_writeEaIf ..).trans
    ((le_unopened_writeEaIf ..).trans (le_unopened_writeEaIf ..)))
  rw [unopened_dosClose, ← hcalls, ← hs₂]
  exact Nat.lt_succ_of_le ((le_unopened_writeSize s₂).trans (le_unopened_writeTimes _))

theorem vmtruncate_tooBig {offset : ℕ} (h : TooBig cur s.ino offset) :
    s.vmtruncate cur offset rt = (-errEFBIG, s) := by
  unfold vmtruncate
  dsimp only
  rw [if_pos h.1]
  split_ifs with hlim hmax
  · rfl
  · rfl
  · exact absurd h.2 (not_or.2 ⟨hlim, hmax⟩)

theorem vmtruncate_of_not_tooBig {offset : ℕ} (h : ¬ TooBig cur s.ino offset) :
    (s.vmtruncate cur offset rt).1 = 0 := by
  unfold vmtruncate
  dsimp only
  split_ifs with hlt hlim hmax
  · exact absurd ⟨hlt, .inl hlim⟩ h
  · exact absurd ⟨hlt, .inr hmax⟩ h
  · rfl
  · rfl

/-- `inode_setattr` fails if the size is too big, and leaves everything as it was. -/
theorem inodeSetattr_error (s : Maint) (cur : Cred) (attr : Iattr) (rt : TruncateAnswer) :
    ((s.inodeSetattr cur attr rt).1 ≠ 0 ↔ Truncates s.ino attr ∧ TooBig cur s.ino attr.iaSize) ∧
      ((s.inodeSetattr cur attr rt).1 ≠ 0 → (s.inodeSetattr cur attr rt).2 = s) := by
  unfold inodeSetattr
  by_cases ht : Truncates s.ino attr
  · rw [if_pos ht]
    by_cases hbig : TooBig cur s.ino attr.iaSize
    · have hne : (-errEFBIG : ℤ) ≠ 0 := by decide
      rw [vmtruncate_tooBig hbig]
      dsimp only
      rw [if_pos (.inl hne)]
      exact ⟨iff_of_true hne ⟨ht, hbig⟩, fun _ => rfl⟩
    · have hok : (s.vmtruncate cur attr.iaSize rt).1 = 0 := vmtruncate_of_not_tooBig hbig
      have hret : (if (s.vmtruncate cur attr.iaSize rt).1 ≠ 0 ∨ attr.iaValid = attrSize then
          s.vmtruncate cur attr.iaSize rt
        else (0, { (s.vmtruncate cur attr.iaSize rt).2 with
          ino := (s.vmtruncate cur attr.iaSize rt).2.ino.set cur attr attr.iaValid })).1 = 0 := by
        split_ifs
        · exact hok
        · rfl
      exact ⟨iff_of_false (not_not.2 hret) fun h => hbig h.2, fun h => absurd hret h⟩
  · rw [if_neg ht]
    exact ⟨iff_of_false (not_not.2 rfl) fun h => ht h.1, fun h => absurd rfl h⟩

/-- An `iof_setattr` that fails was refused, and has made its attributes pending. -/
theorem iofSetattr_refused (s : Maint) (tz : ℤ) (relink : EaStore → EaStore) (cur : Cred)
    (attr : Iattr) (rt : TruncateAnswer) (rw : WriteAnswer) :
    ((s.iofSetattr tz relink cur attr rt rw).1 ≠ 0 ↔ Refused cur s.ino attr) ∧
      (Refused cur s.ino attr → (s.iofSetattr tz relink cur attr rt rw).2.ino.iaValid =
        s.ino.iaValid ||| attr.iaValid) := by
  obtain ⟨mode, -, hattr⟩ := inodeChangeOk_attr cur s.ino attr
  have hchange : inodeChangeOk cur { s.ino with iaValid := s.ino.iaValid ||| attr.iaValid } attr =
      inodeChangeOk cur s.ino attr := rfl
  unfold iofSetattr
  dsimp only
  rw [hchange, hattr]
  by_cases hok : (inodeChangeOk cur s.ino attr).1 = 0
  · obtain ⟨hiff, hsame⟩ := inodeSetattr_error
      { s with ino := { s.ino with iaValid := s.ino.iaValid ||| attr.iaValid } } cur
      { attr with iaMode := mode } rt
    have href : Refused cur s.ino attr ↔ Truncates s.ino attr ∧ TooBig cur s.ino attr.iaSize :=
      or_iff_right (not_not.2 hok)
    rw [if_pos hok]
    by_cases hbig : Truncates s.ino attr ∧ TooBig cur s.ino attr.iaSize
    · have herr := hiff.2 hbig
      rw [if_neg herr, hsame herr]
      exact ⟨iff_of_true herr (href.2 hbig), fun _ => rfl⟩
    · have herr := not_not.1 (mt hiff.1 hbig)
      rw [if_pos herr]
      exact ⟨iff_of_false (not_not.2 herr) (mt href.1 hbig), fun h => absurd (href.1 h) hbig⟩
  · rw [if_neg hok, if_neg hok]
    exact ⟨iff_of_true hok (.inl hok), fun _ => rfl⟩

/-- **A failure leaves no trace** exactly if what is refused is pending already, and the file can be
opened. -/
theorem noTrace_iff (s : Maint) (c : MaintCall) : s.NoTrace c ↔ s.FailsCleanly c := by
  cases c with
  | setattr tz relink cur attr rt rw =>
    obtain ⟨hfails, hvalid⟩ := iofSetattr_refused s tz relink cur attr rt rw
    refine imp_congr_ctx hfails fun href => ?_
    rw [hvalid href]
    exact Flags.or_eq_left_iff
  | writeInode tz relink rw =>
    refine forall_congr' fun hopens => forall_congr' fun hfails => ?_
    refine iff_of_false (fun h => ?_) id
    exact (lt_unopened_lxafsWriteInode hopens hfails).ne' h.1
  | truncate rt =>
    refine forall_congr' fun hfails => ?_
    refine iff_of_false (fun h => ?_) id
    exact (lt_unopened_iofTruncate hfails).ne' h.1

/-- A stranger's `chmod` fails, and the mode is pending; a file that cannot be opened is closed, and
the mode does not stay pending. -/
theorem not_noTrace :
    ¬ plainFile.NoTrace (.setattr 0 id ⟨7, false, false, false, fun _ => false, none⟩
      ⟨attrMode, 0o100777, 0, 0, 0, 0, 0, 0⟩ noError.1 noError.2) ∧
    ¬ NoTrace { plainFile with ino := { plainFile.ino with iaValid := attrSize ||| attrMode } }
      (.writeInode 0 id { noError.2 with opened := ⟨5, 0⟩, setSize := 6 }) ∧
    ¬ plainFile.NoTrace (.truncate ⟨⟨5, 0⟩, 6⟩) := by
  refine ⟨fun h => ?_, fun h => ?_, fun h => ?_⟩
  · exact absurd (h (by decide)) (by decide)
  · exact absurd (h ⟨by decide, by decide⟩ (.inr (by decide))).2 (by decide)
  · exact absurd (h (.inr (by decide))).1 (by decide)

end Maint

end LxApi32
