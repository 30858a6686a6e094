import LxApi32.Daemon.Packet
import LxApi32.Kernel.Errno
import LxApi32.Lib.Machine
import Mathlib.Logic.Function.Basic

/-!
# The size of an open lxafs file

The inode of a regular file keeps the size of the host's file in `i_size`.  `fof_open` asks the
host for the size again, `fof_write` writes to the host and leaves `i_size` alone; `lseek` to the
end of the file, by `default_llseek`, goes where `i_size` is.

* `SizeSys.always_coherent_iff` : in every sequence of opens, reads, writes, seeks and releases
  `i_size` is always the host's size, and not below the end of any write, exactly if every write
  ends within it.
* `SizeSys.iSize_open` : an open that gets the host's size brings the two together again.
-/

namespace LxApi32

/-- `struct lxafs_filep_priv_f` -/
structure FilepPriv where
  /-- `ulHandle` -/
  ulHandle : ULONG
  /-- `ulOpenFlags` -/
  ulOpenFlags : ULONG
  /-- `ulOpenMode` -/
  ulOpenMode : ULONG
  deriving DecidableEq, Repr

/-- What `fof_read` and `fof_write` use of a `struct file`. -/
structure OpenFile where
  /-- `f_pos` -/
  fPos : ℕ
  /-- `private_data` -/
  privateData : Option FilepPriv
  deriving DecidableEq, Repr

/-- `OPEN_FLAGS_FAIL_ON_ERROR` -/
def openFlagsFailOnError : ULONG := 0x2000

/-- `OPEN_SHARE_DENYNONE` -/
def openShareDenynone : ULONG := 0x40

/-- `OPEN_ACTION_OPEN_IF_EXISTS`; `OPEN_ACTION_FAIL_IF_NEW` is 0 -/
def openActionOpenIfExists : ULONG := 1

/-- `OPEN_ACTION_CREATE_IF_NEW` -/
def openActionCreateIfNew : ULONG := 0x10

/-- `O_CREAT` -/
def oCreat : ULONG := 0o100

/-- `pf->ulOpenMode` of `fof_open`; the access modes of the host have the values of `O_RDONLY`,
`O_WRONLY` and `O_RDWR`. -/
def fofOpenMode (fFlags : ULONG) : ULONG :=
  (if fFlags &&& 3 = 3 then openFlagsFailOnError else (fFlags &&& 3) ||| openShareDenynone) |||
    openFlagsFailOnError

/-- `pf->ulOpenFlags` of `fof_open`; with `O_EXCL` and without it they are the same. -/
def fofOpenFlags (fFlags : ULONG) : ULONG :=
  if fFlags &&& oCreat ≠ 0 then openActionCreateIfNew ||| openActionOpenIfExists
  else openActionOpenIfExists

/-- What the system answers in `fof_open`. -/
structure OpenAnswer where
  /-- There is memory for `pf`. -/
  pf : Bool
  /-- `SecHlpOpen` -/
  rc : ULONG
  /-- The handle that it gives. -/
  handle : ULONG
  /-- `SecHlpQFileSize` -/
  rcSize : ULONG
  deriving DecidableEq, Repr

/-- `fof_open` with the host's size `sz`: what it returns, `private_data` and `i_size`. -/
def fofOpen (fFlags : ULONG) (r : OpenAnswer) (sz : ULONG) (iSize : ℤ) :
    ℤ × Option FilepPriv × ℤ :=
  if r.pf = false then (-errENOMEM, none, iSize)
  else if r.rc ≠ 0 ∨ r.handle = 0 then (-errEPERM, none, iSize)
  else (0, some ⟨r.handle, fofOpenFlags fFlags, fofOpenMode fFlags⟩,
    if r.rcSize = 0 then sz.toNat else iSize)

/-- The argument `ppos` of `fof_read` and `fof_write`. -/
inductive PPos
  /-- A null pointer. -/
  | null
  /-- `&file->f_pos` -/
  | file
  /-- A position of the caller, as in `pwrite`. -/
  | own (pos : ℕ)
  deriving DecidableEq, Repr

namespace PPos

/-- The position that is used for the file `f`. -/
def pos (f : OpenFile) : PPos → ℕ
  | null => f.fPos
  | file => f.fPos
  | own pos => pos

/-- The file after `(*ppos)+=cbBytes`. -/
def advance (f : OpenFile) (cbBytes : ULONG) : PPos → OpenFile
  | file => { f with fPos := f.fPos + cbBytes.toNat }
  | null => f
  | own _ => f

end PPos

/-- What `SecHlpRead` and `SecHlpWrite` answer. -/
structure TransferAnswer where
  /-- The return code. -/
  rc : ULONG
  /-- The bytes that are transferred. -/
  cbBytes : ULONG
  deriving DecidableEq, Repr

/-- The body that `fof_read` and `fof_write` share; `buf` tells whether the buffer is not null.  The
last component is the offset that the helper is called with. -/
def fofTransfer (f : OpenFile) (buf : Bool) (ppos : PPos) (r : TransferAnswer) :
    ℤ × OpenFile × Option ULONG :=
  if buf = false then (-errEFAULT, f, none)
  else match f.privateData with
    | none => (-errENOENT, f, none)
    | some pf =>
      if pf.ulHandle = 0 then (-errEBADF, f, none)
      else
        let offset := BitVec.ofNat 32 (ppos.pos f)
        if r.rc ≠ 0 then (-errEBADF, f, some offset)
        else (r.cbBytes.toInt, ppos.advance f r.cbBytes, some offset)

/-- `fof_read` -/
def fofRead (f : OpenFile) (buf : Bool) (ppos : PPos) (r : TransferAnswer) : ℤ × OpenFile :=
  let (ret, f, _) := fofTransfer f buf ppos r
  (ret, f)

/-- The size of the host's file after `SecHlpWrite`. -/
def hostWrite (size offset : ULONG) (r : TransferAnswer) : ULONG :=
  if r.rc ≠ 0 ∨ r.cbBytes = 0 then size
  else if size.toNat < offset.toNat + r.cbBytes.toNat then offset + r.cbBytes else size

/-- `fof_write`, with the size of the host's file. -/
def fofWrite (f : OpenFile) (buf : Bool) (ppos : PPos) (r : TransferAnswer) (size : ULONG) :
    ℤ × OpenFile × ULONG :=
  let (ret, f, offset) := fofTransfer f buf ppos r
  (ret, f, offset.elim size fun offset => hostWrite size offset r)

/-- `default_llseek`: what it returns and the new `f_pos`. -/
def defaultLlseek (fPos : ℕ) (iSize offset : ℤ) (origin : ℕ) : ℤ × ℕ :=
  let offset := match origin with
    | 2 => offset + iSize
    | 1 => offset + fPos
    | _ => offset
  if 0 ≤ offset then (offset, offset.toNat) else (-errEINVAL, fPos)

/-- The inode, the host's file and the open files. -/
structure SizeSys where
  /-- The size of the host's file. -/
  size : ULONG
  /-- `inode->i_size` -/
  iSize : ℤ
  /-- The open files. -/
  files : ℕ → Option OpenFile
  /-- Where the writes that have succeeded ended, a history variable. -/
  ends : List ℕ

/-- A call. -/
inductive FileAct
  /-- `fof_open` of the file `n` -/
  | open (n : ℕ) (fFlags : ULONG) (r : OpenAnswer)
  /-- `fof_read` -/
  | read (n : ℕ) (buf : Bool) (ppos : PPos) (r : TransferAnswer)
  /-- `fof_write` -/
  | write (n : ℕ) (buf : Bool) (ppos : PPos) (r : TransferAnswer)
  /-- `default_llseek` -/
  | lseek (n : ℕ) (offset : ℤ) (origin : ℕ)
  /-- `fof_release`, after which there is no `struct file` any more. -/
  | release (n : ℕ)

namespace SizeSys

/-- The write that `fof_write` asks for is carried out. -/
def Written (f : OpenFile) (buf : Bool) (ppos : PPos) (r : TransferAnswer) : Prop :=
  (fofTransfer f buf ppos r).2.2 ≠ none ∧ r.rc = 0

instance (f : OpenFile) (buf : Bool) (ppos : PPos) (r : TransferAnswer) :
    Decidable (Written f buf ppos r) :=
  inferInstanceAs (Decidable (_ ∧ _))

/-- The file `n` after a call. -/
def setFile (s : SizeSys) (n : ℕ) (f : Option OpenFile) : SizeSys :=
  { s with files := Function.update s.files n f }

/-- The step function.  The host's file does not grow to 4 GB, so a write that would do that does
not succeed. -/
def step (s : SizeSys) : FileAct → Option SizeSys
  | .open n fFlags r =>
    if s.files n ≠ none then none
    else
      let (_, pf, iSize) := fofOpen fFlags r s.size s.iSize
      some { s.setFile n (pf.map fun pf => ⟨0, some pf⟩) with iSize := iSize }
  | .read n buf ppos r => (s.files n).map fun f => s.setFile n (some (fofRead f buf ppos r).2)
  | .write n buf ppos r =>
    (s.files n).bind fun f =>
      let (_, f', size) := fofWrite f buf ppos r s.size
      if Written f buf ppos r then
        if (BitVec.ofNat 32 (ppos.pos f)).toNat + r.cbBytes.toNat < 2 ^ 32 then
          some { s.setFile n (some f') with
            size := size, ends := (ppos.pos f + r.cbBytes.toNat) :: s.ends }
        else none
      else some { s.setFile n (some f') with size := size }
  | .lseek n offset origin =>
    (s.files n).map fun f =>
      s.setFile n (some { f with fPos := (defaultLlseek f.fPos s.iSize offset origin).2 })
  | .release n => (s.files n).map fun _ => s.setFile n none

/-- The machine for an inode that `lxafs_init_inode_type` has filled for a host file of a size. -/
def machine (cbFile : ULONG) : Machine SizeSys FileAct :=
  ⟨⟨cbFile, cbFile.toNat, fun _ => none, []⟩, step⟩

/-- `i_size` is the size of the host's file and behind all data written; so is the position after a
seek to the end. -/
structure Coherent (s : SizeSys) : Prop where
  /-- `i_size` does not differ from the size of the host's file. -/
  size : s.iSize = s.size.toNat
  /-- No write has ended behind it. -/
  behind : ∀ p ∈ s.ends, (p : ℤ) ≤ s.iSize
  /-- `lseek(fd, 0, SEEK_END)` -/
  seekEnd : ∀ p ∈ s.ends, ∀ fPos, p ≤ (defaultLlseek fPos s.iSize 0 2).2

/-- A write that is carried out ends within `i_size`. -/
def Inside (s : SizeSys) : FileAct → Prop
  | .write n buf ppos r => ∀ f ∈ s.files n, Written f buf ppos r →
      ((ppos.pos f + r.cbBytes.toNat : ℕ) : ℤ) ≤ s.iSize
  | _ => True

instance (s : SizeSys) : DecidablePred s.Inside := fun
  | .write n buf ppos r => inferInstanceAs (Decidable (∀ f ∈ s.files n, Written f buf ppos r → _))
  | .open .. => isTrue trivial
  | .read .. => isTrue trivial
  | .lseek .. => isTrue trivial
  | .release .. => isTrue trivial

/-! ### The size of the host's file -/

variable {s s' : SizeSys} {f : OpenFile} {buf : Bool} {ppos : PPos} {r : TransferAnswer}

/-- A seek to the end goes to `i_size`. -/
theorem defaultLlseek_end {fPos : ℕ} {iSize : ℤ} (h : 0 ≤ iSize) :
    defaultLlseek fPos iSize 0 2 = (iSize, iSize.toNat) := by
  simp [defaultLlseek, h]

/-- The state is coherent if the size is right and no write has ended behind it. -/
theorem coherent_of_size (hsize : s.iSize = s.size.toNat)
    (hbehind : ∀ p ∈ s.ends, (p : ℤ) ≤ s.iSize) : s.Coherent where
  size := hsize
  behind := hbehind
  seekEnd p hp fPos := by
    have hle := hbehind p hp
    rw [defaultLlseek_end (by omega)]
    show p ≤ s.iSize.toNat
    omega

/-- The helper is called with the low 32 bits of the position, or not at all. -/
theorem fofTransfer_offset (f : OpenFile) (buf : Bool) (ppos : PPos) (r : TransferAnswer) :
    (fofTransfer f buf ppos r).2.2 = none ∨
      (fofTransfer f buf ppos r).2.2 = some (BitVec.ofNat 32 (ppos.pos f)) := by
  unfold fofTransfer
  by_cases hbuf : buf = false
  · rw [if_pos hbuf]
    exact .inl rfl
  · rw [if_neg hbuf]
    cases f.privateData with
    | none => exact .inl rfl
    | some pf =>
      dsimp only
      split_ifs
      · exact .inl rfl
      · exact .inr rfl
      · exact .inr rfl

theorem hostWrite_of_rc {offset size : ULONG} (h : r.rc ≠ 0) : hostWrite size offset r = size :=
  if_pos (.inl h)

/-- A write within the file does not change its size. -/
theorem hostWrite_of_le {size offset : ULONG} (h : offset.toNat + r.cbBytes.toNat ≤ size.toNat) :
    hostWrite size offset r = size := by
  unfold hostWrite
  split_ifs
  · rfl
  · omega
  · rfl

/-- A write that is not carried out leaves the host's file as it is. -/
theorem fofWrite_size_of_not_written (h : ¬ Written f buf ppos r) (size : ULONG) :
    (fofWrite f buf ppos r size).2.2 = size := by
  show (fofTransfer f buf ppos r).2.2.elim size _ = size
  rcases fofTransfer_offset f buf ppos r with hoff | hoff
  · rw [hoff]
    rfl
  · have hrc : r.rc ≠ 0 := fun hrc => h ⟨by rw [hoff]; exact Option.some_ne_none _, hrc⟩
    rw [hoff]
    exact hostWrite_of_rc hrc

/-- A write that is carried out goes to the file's position, as far as that has 32 bits. -/
theorem fofWrite_size_of_written (h : Written f buf ppos r) (size : ULONG) :
    (fofWrite f buf ppos r size).2.2 = hostWrite size (BitVec.ofNat 32 (ppos.pos f)) r := by
  show (fofTransfer f buf ppos r).2.2.elim size _ = _
  rcases fofTransfer_offset f buf ppos r with hoff | hoff
  · exact absurd hoff h.1
  · rw [hoff]
    rfl

/-! ### The calls -/

/-- What a step does to the size of the host's file, to `i_size` and to the history. -/
theorem step_cases {a : FileAct} (h : step s a = some s') :
    (∃ n buf ppos r f, a = .write n buf ppos r ∧ s.files n = some f ∧ Written f buf ppos r ∧
      s'.size = hostWrite s.size (BitVec.ofNat 32 (ppos.pos f)) r ∧ s'.iSize = s.iSize ∧
      s'.ends = (ppos.pos f + r.cbBytes.toNat) :: s.ends) ∨
    (s.Inside a ∧ s'.size = s.size ∧ s'.ends = s.ends ∧
      (s'.iSize = s.iSize ∨ s'.iSize = s.size.toNat)) := by
  cases a with
  | «open» n fFlags r =>
    right
    simp only [step] at h
    split_ifs at h
    cases h
    refine ⟨trivial, rfl, rfl, ?_⟩
    show (fofOpen fFlags r s.size s.iSize).2.2 = s.iSize ∨
      (fofOpen fFlags r s.size s.iSize).2.2 = s.size.toNat
    unfold fofOpen
    split_ifs
    · exact .inl rfl
    · exact .inl rfl
    · exact .inr rfl
    · exact .inl rfl
  | read n buf ppos r =>
    right
    obtain ⟨f, -, rfl⟩ := Option.map_eq_some_iff.1 h
    exact ⟨trivial, rfl, rfl, .inl rfl⟩
  | write n buf ppos r =>
    obtain ⟨f, hf, hw⟩ := Option.bind_eq_some_iff.1 h
    dsimp only at hw
    by_cases hwritten : Written f buf ppos r
    · rw [if_pos hwritten] at hw
      split_ifs at hw
      cases hw
      exact .inl ⟨n, buf, ppos, r, f, rfl, hf, hwritten, fofWrite_size_of_written hwritten _, rfl,
        rfl⟩
    · rw [if_neg hwritten] at hw
      cases hw
      refine .inr ⟨?_, fofWrite_size_of_not_written hwritten _, rfl, .inl rfl⟩
      intro f' hf' hwritten'
      rw [Option.mem_def, hf, Option.some.injEq] at hf'
      exact absurd (hf' ▸ hwritten') hwritten
  | lseek n offset origin =>
    right
    obtain ⟨f, -, rfl⟩ := Option.map_eq_some_iff.1 h
    exact ⟨trivial, rfl, rfl, .inl rfl⟩
  | release n =>
    right
    obtain ⟨f, -, rfl⟩ := Option.map_eq_some_iff.1 h
    exact ⟨trivial, rfl, rfl, .inl rfl⟩

/-- A write within `i_size` keeps the two sizes equal. -/
theorem coherent_step {a : FileAct} (hs : s.Coherent) (ha : s.Inside a)
    (h : step s a = some s') : s'.Coherent := by
  rcases step_cases h with
    ⟨n, buf, ppos, r, f, rfl, hf, hw, hsize, hi, hends⟩ | ⟨-, hsize, hends, hi⟩
  · have hle : ((ppos.pos f + r.cbBytes.toNat : ℕ) : ℤ) ≤ s.iSize := ha f hf hw
    have hsz := hs.size
    have hlt := s.size.isLt
    have hpos : (BitVec.ofNat 32 (ppos.pos f)).toNat = ppos.pos f := by
      rw [BitVec.toNat_ofNat, Nat.mod_eq_of_lt (by omega)]
    rw [hostWrite_of_le (by omega)] at hsize
    refine coherent_of_size (by rw [hi, hsize, hsz]) ?_
    rw [hends, hi]
    exact List.forall_mem_cons.2 ⟨hle, hs.behind⟩
  · have hi' : s'.iSize = s.iSize := hi.elim id fun hi => by rw [hi, hs.size]
    refine coherent_of_size (by rw [hi', hsize, hs.size]) ?_
    rw [hends, hi']
    exact hs.behind

/-- After any other write `i_size` is not behind its end. -/
theorem inside_of_coherent {a : FileAct} (h : step s a = some s') (hs' : s'.Coherent) :
    s.Inside a := by
  rcases step_cases h with ⟨n, buf, ppos, r, f, rfl, hf, -, -, hi, hends⟩ | ⟨ha, -⟩
  · intro f' hf' _
    rw [Option.mem_def, hf, Option.some.injEq] at hf'
    subst hf'
    rw [← hi]
    exact hs'.behind _ (by rw [hends]; exact List.mem_cons_self)
  · exact ha

/-- An open that gets the size from the host brings the two sizes together. -/
theorem iSize_open {n : ℕ} {fFlags : ULONG} {r : OpenAnswer}
    (h : step s (.open n fFlags r) = some s') (hopen : (s'.files n).isSome) (hsize : r.rcSize = 0) :
    s'.iSize = s'.size.toNat := by
  simp only [step] at h
  split_ifs at h
  cases h
  revert hopen
  simp only [setFile, Function.update_self, fofOpen]
  split_ifs <;> simp

/-- **The exact condition.**  Along a sequence of calls `i_size` is always the host's size and not
below the end of any write if and only if every write ends within it. -/
theorem always_coherent_iff (cbFile : ULONG) {as : List FileAct}
    (h : (machine cbFile).exec (machine cbFile).init as = some s') :
    (machine cbFile).Always Coherent (machine cbFile).init as ↔
      (machine cbFile).Along Inside (machine cbFile).init as :=
  Machine.always_iff_along (I := Coherent) (fun _ => id) (fun _ _ _ => coherent_step)
    (fun _ _ _ _ => inside_of_coherent) (coherent_of_size rfl nofun) h

/-- Two opens, a write through each handle within the file, and a seek to its end. -/
theorem always_coherent_overwrite : (machine 100).Always Coherent (machine 100).init
    [.open 1 2 ⟨true, 0, 7, 0⟩, .open 2 1 ⟨true, 0, 8, 0⟩, .write 1 true .file ⟨0, 60⟩,
      .write 2 true (.own 40) ⟨0, 60⟩, .lseek 1 0 2, .release 2] :=
  (always_coherent_iff 100 (Option.some_get (x := (machine 100).exec _ _) (by decide)).symm).2
    (Machine.along_of_check (g := fun s a => decide (s.Inside a)) (by simp) (by decide))

/-- A write to an empty file is enough. -/
theorem not_always_coherent_append : ¬ (machine 0).Always Coherent (machine 0).init
    [.open 1 1 ⟨true, 0, 7, 0⟩, .write 1 true .file ⟨0, 5⟩] := by
  intro h
  have hend := (h.2 _ rfl).2 _ rfl
  exact absurd hend.size (by decide)

end SizeSys

end LxApi32
