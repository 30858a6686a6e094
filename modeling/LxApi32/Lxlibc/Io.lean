import LxApi32.Daemon.Packet
import LxApi32.Kernel.Errno
import LxApi32.Lib.CString
import LxApi32.Lib.Machine
import LxApi32.Lxlibc.FileHandles

/-!
# Files in lxlibc

The files of a program are open in OS/2, or in the Linux subsystem by a system call.  Both number
their files as POSIX says; lxlibc registers the numbers under mapped handles, and operations on a
mapped handle have to find the right subsystem.

`LXAPI_dup2` asks a subsystem for the number that the mapped handle shall have, and does not look
whether this number is the real handle of another file.

* `LibC.always_independent_iff` : in every sequence of calls the mapped handles always stand for
  different open files, exactly if no `LXAPI_dup2` takes a real handle that is registered.
* `LibC.along_dispatched_iff` : an operation on a mapped handle reaches the file in its own
  subsystem exactly if it is not always a system call, or the file is in Linux; for other numbers it
  does nothing and returns -1, exactly if it is not `LXAPI_read`, `LXAPI_write` or `LXAPI_lseek`.

What the subsystems answer is up to them, as long as they keep to the numbers.
-/

namespace LxApi32

/-- The operations on a handle, with their other arguments. -/
inductive HandleOp
  | read (buffer buflen : ULONG)
  | write (buffer buflen : ULONG)
  | lseek (offset origin : ULONG)
  | dup
  | close
  | fchmod (mode : ULONG)
  | ftruncate (offset : ULONG)
  | readdir (dirent count : ULONG)
  | getdents (dirent count : ULONG)
  deriving DecidableEq, Repr

/-- Operations that are always system calls. -/
def HandleOp.OnlySyscall : HandleOp → Prop
  | .fchmod _ | .ftruncate _ | .readdir .. | .getdents .. => True
  | .read .. | .write .. | .lseek .. | .dup | .close => False

/-- Operations whose result for a number that is not a mapped handle is 0. -/
def HandleOp.ReturnsZero : HandleOp → Prop
  | .read .. | .write .. | .lseek .. => True
  | .dup | .close | .fchmod _ | .ftruncate _ | .readdir .. | .getdents .. => False

/-- What a subsystem is asked for. -/
inductive Request
  /-- `open` or `sopen` -/
  | open (pathname : Bytes)
  /-- `creat` -/
  | creat (pathname : Bytes)
  /-- `dup2` -/
  | dup2 (handle1 handle2 : ℤ)
  /-- An operation on a real handle. -/
  | op (op : HandleOp) (handle : ℤ)
  deriving DecidableEq, Repr

/-- A result that tells that nothing has been done. -/
structure Refusal where
  /-- The result. -/
  code : ℤ
  /-- It is less than 0. -/
  neg : code < 0
  deriving DecidableEq, Repr

/-- A call of the program, with what the subsystems answer to it. -/
inductive LxCall
  /-- `LXAPI_open` and `LXAPI_sopen`; `copy` is what stands behind the block for a copy of the name,
  if there is memory for it, and `entry` tells whether there is memory for an entry. -/
  | open (pathname : Bytes) (copy : Option Bytes) (lx os : Except Refusal ℕ) (entry : Bool)
  /-- `LXAPI_creat` -/
  | creat (pathname : Bytes) (copy : Option Bytes) (lx os : Except Refusal ℕ) (entry : Bool)
  /-- `LXAPI_dup2` -/
  | dup2 (handle1 handle2 : ℤ) (refused : Option Refusal) (entry : Bool)
  /-- An operation on a handle. -/
  | op (handle : ℤ) (op : HandleOp) (answer : Except Refusal ℤ) (entry : Bool)

/-- The state of a program. -/
structure LibC where
  /-- `lx_filehandles` -/
  filehandles : List LxFilehandle
  /-- The open files of the subsystems, each with a number of its own. -/
  tables : FhType → Descriptors ℕ
  /-- `errno` -/
  errno : ℤ
  /-- What the subsystems have been asked for. -/
  asked : List (FhType × Request)

/-- `LXMAXPATH` -/
def lxMaxPath : ℕ := 300

/-- `maybe_unix_file` -/
def maybeUnixFile (name : Bytes) : Bool :=
  if 0x5C ∈ CString.str name then false
  else if 1 < CString.strlen name ∧ name[1]? = some 0x3A then false
  else true

/-! ### The subsystems -/

/-- A subsystem opens a file. -/
def serveOpen (t : Descriptors ℕ) : Except Refusal ℕ → ℤ × Descriptors ℕ
  | .error e => (e.code, t)
  | .ok f => t.openLowest f

/-- A subsystem does `dup2`. -/
def serveDup2 (t : Descriptors ℕ) (handle1 handle2 : ℤ) (refused : Option Refusal) :
    ℤ × Descriptors ℕ :=
  match refused with
  | some e => (e.code, t)
  | none =>
    match t.dup2 handle1 handle2 with
    | none => (-errEBADF, t)
    | some t => (handle2, t)

/-- A subsystem carries out an operation; results other than new handles are up to it. -/
def serveOp (t : Descriptors ℕ) (op : HandleOp) (handle : ℤ) : Except Refusal ℤ → ℤ × Descriptors ℕ
  | .error e => (e.code, t)
  | .ok rc =>
    match op with
    | .dup => (t.dup handle).getD (-errEBADF, t)
    | .close => (rc, t.erase handle)
    | _ => (rc, t)

namespace LibC

/-- A subsystem is asked, and serves. -/
def ask (s : LibC) (type : FhType) (request : Request) (served : ℤ × Descriptors ℕ) : ℤ × LibC :=
  (served.1, { s with
    tables := Function.update s.tables type served.2
    asked := s.asked ++ [(type, request)] })

/-! ### lxlibc -/

/-- `LXAPI_register_real_filehandle` -/
def registerReal (s : LibC) (realHandle mappedHandle : ℤ) (type : FhType) (entry : Bool) :
    ℤ × LibC :=
  let r := lxapiRegisterRealFilehandle realHandle mappedHandle type entry s.filehandles
  (r.1, { s with filehandles := r.2 })

/-- `LXAPI_register_filehandle` -/
def register (s : LibC) (handle : ℤ) (type : FhType) (entry : Bool) : ℤ × LibC :=
  let r := lxapiRegisterFilehandle handle type entry s.filehandles
  (r.1, { s with filehandles := r.2 })

/-- `LXAPI_vsopen` and `LXAPI_creat` as far as `free(p)`: the type and the real handle. -/
def openReal (s : LibC) (request : Request) (unix : Bool) (lx os : Except Refusal ℕ) :
    FhType × ℤ × LibC :=
  if unix then
    let (h, s) := s.ask .lx request (serveOpen (s.tables .lx) lx)
    if h < 0 then
      if h ≠ -errEPERM then (.os, s.ask .os request (serveOpen (s.tables .os) os))
      else (.lx, -1, { s with errno := h })
    else (.lx, h, s)
  else (.os, s.ask .os request (serveOpen (s.tables .os) os))

/-- `LXAPI_vsopen` and `LXAPI_creat`, which differ in what they ask for. -/
def openFile (s : LibC) (request : Bytes → Request) (pathname : Bytes) (copy : Option Bytes)
    (lx os : Except Refusal ℕ) (entry : Bool) : ℤ × LibC :=
  match copy with
  | none => (-1, s)
  | some behind =>
    let p := CString.strncpy [] pathname lxMaxPath ++ behind
    let (type, h, s) := s.openReal (request (CString.str p)) (maybeUnixFile p) lx os
    if 0 ≤ h then s.register h type entry else (h, s)

/-- `LXAPI_open`, by `LXAPI_vsopen` -/
def lxapiOpen (s : LibC) : Bytes → Option Bytes → Except Refusal ℕ → Except Refusal ℕ → Bool →
    ℤ × LibC :=
  s.openFile .open

/-- `LXAPI_creat` -/
def lxapiCreat (s : LibC) : Bytes → Option Bytes → Except Refusal ℕ → Except Refusal ℕ → Bool →
    ℤ × LibC :=
  s.openFile .creat

/-- `LXAPI_dup2` -/
def lxapiDup2 (s : LibC) (handle1 handle2 : ℤ) (refused : Option Refusal) (entry : Bool) :
    ℤ × LibC :=
  if (lxapiGetFilehandleStruct handle2 s.filehandles).isSome then (-1, s)
  else match lxapiGetFilehandleStruct handle1 s.filehandles with
    | none => (-1, s)
    | some fhp =>
      let (h, s) := s.ask fhp.type (.dup2 fhp.realHandle handle2)
        (serveDup2 (s.tables fhp.type) fhp.realHandle handle2 refused)
      if 0 ≤ h then s.registerReal handle2 handle2 fhp.type entry else (-1, s)

/-- An operation on the real handle, in the subsystem of its type; `rc` is the result for a number
that is not a mapped handle. -/
def byType (s : LibC) (handle : ℤ) (op : HandleOp) (answer : Except Refusal ℤ) (rc : ℤ) :
    ℤ × LibC :=
  match lxapiGetFilehandleStruct handle s.filehandles with
  | none => (rc, s)
  | some fhp => s.ask fhp.type (.op op fhp.realHandle)
      (serveOp (s.tables fhp.type) op fhp.realHandle answer)

/-- A system call on the real handle. -/
def bySyscall (s : LibC) (handle : ℤ) (op : HandleOp) (answer : Except Refusal ℤ) : ℤ × LibC :=
  match lxapiGetFilehandleStruct handle s.filehandles with
  | none => (-1, s)
  | some fhp => s.ask .lx (.op op fhp.realHandle)
      (serveOp (s.tables .lx) op fhp.realHandle answer)

/-- `LXAPI_close` -/
def lxapiClose (s : LibC) (handle : ℤ) (answer : Except Refusal ℤ) : ℤ × LibC :=
  let r := s.byType handle .close answer (-1)
  (r.1, { r.2 with filehandles := lxapiDeregisterFilehandle handle r.2.filehandles })

/-- `LXAPI_read` -/
def lxapiRead (s : LibC) (handle : ℤ) (buffer buflen : ULONG) (answer : Except Refusal ℤ) :
    ℤ × LibC :=
  s.byType handle (.read buffer buflen) answer 0

/-- `LXAPI_write` -/
def lxapiWrite (s : LibC) (handle : ℤ) (buffer buflen : ULONG) (answer : Except Refusal ℤ) :
    ℤ × LibC :=
  s.byType handle (.write buffer buflen) answer 0

/-- `LXAPI_lseek` -/
def lxapiLseek (s : LibC) (handle : ℤ) (offset origin : ULONG) (answer : Except Refusal ℤ) :
    ℤ × LibC :=
  s.byType handle (.lseek offset origin) answer 0

/-- `LXAPI_dup` -/
def lxapiDup (s : LibC) (handle : ℤ) (answer : Except Refusal ℤ) (entry : Bool) : ℤ × LibC :=
  match lxapiGetFilehandleStruct handle s.filehandles with
  | none => (-1, s)
  | some fhp =>
    let (h, s) := s.ask fhp.type (.op .dup fhp.realHandle)
      (serveOp (s.tables fhp.type) .dup fhp.realHandle answer)
    if 0 ≤ h then s.register h fhp.type entry else (-1, s)

/-- `fchmod` -/
def fchmod (s : LibC) (fd : ℤ) (mode : ULONG) : Except Refusal ℤ → ℤ × LibC :=
  s.bySyscall fd (.fchmod mode)

/-- `ftruncate` -/
def ftruncate (s : LibC) (fd : ℤ) (offset : ULONG) : Except Refusal ℤ → ℤ × LibC :=
  s.bySyscall fd (.ftruncate offset)

/-- `readdir` -/
def readdir (s : LibC) (fd : ℤ) (dirent count : ULONG) : Except Refusal ℤ → ℤ × LibC :=
  s.bySyscall fd (.readdir dirent count)

/-- `getdents` -/
def getdents (s : LibC) (fd : ℤ) (dirent count : ULONG) : Except Refusal ℤ → ℤ × LibC :=
  s.bySyscall fd (.getdents dirent count)

/-- An operation on a handle. -/
def handleOp (s : LibC) (handle : ℤ) (op : HandleOp) (answer : Except Refusal ℤ) (entry : Bool) :
    ℤ × LibC :=
  match op with
  | .read buffer buflen => s.lxapiRead handle buffer buflen answer
  | .write buffer buflen => s.lxapiWrite handle buffer buflen answer
  | .lseek offset origin => s.lxapiLseek handle offset origin answer
  | .dup => s.lxapiDup handle answer entry
  | .close => s.lxapiClose handle answer
  | .fchmod mode => s.fchmod handle mode answer
  | .ftruncate offset => s.ftruncate handle offset answer
  | .readdir dirent count => s.readdir handle dirent count answer
  | .getdents dirent count => s.getdents handle dirent count answer

/-- A call. -/
def call (s : LibC) : LxCall → ℤ × LibC
  | .open pathname copy lx os entry => s.lxapiOpen pathname copy lx os entry
  | .creat pathname copy lx os entry => s.lxapiCreat pathname copy lx os entry
  | .dup2 handle1 handle2 refused entry => s.lxapiDup2 handle1 handle2 refused entry
  | .op handle op answer entry => s.handleOp handle op answer entry

/-- The machine of a program that begins with some open files, of which none is registered. -/
def machine (tables : FhType → Descriptors ℕ) : Machine LibC LxCall where
  init := ⟨[], tables, 0, []⟩
  step s c := some (s.call c).2

/-- Mapped handles stand for different files. -/
structure Independent (s : LibC) : Prop where
  /-- No two of them have the same type and real handle. -/
  distinct : (s.filehandles.map fun fhp => (fhp.type, fhp.realHandle)).Nodup
  /-- Their files are open. -/
  opened : ∀ fhp ∈ s.filehandles, fhp.realHandle ∈ s.tables fhp.type
  /-- A close of one of them leaves the files of the others as they are. -/
  close : ∀ fhp ∈ s.filehandles, ∀ fhp' ∈ s.filehandles, fhp ≠ fhp' → ∀ answer,
    ((s.lxapiClose fhp.mappedHandle answer).2.tables fhp'.type).lookup fhp'.realHandle =
      (s.tables fhp'.type).lookup fhp'.realHandle

/-- An `LXAPI_dup2` that registers its handle does not take a real handle that is registered. -/
def KeepsApart (s : LibC) : LxCall → Prop
  | .dup2 handle1 handle2 refused entry =>
    lxapiGetFilehandleStruct handle2 s.filehandles = none → 0 ≤ handle2 → refused = none →
      entry = true → ∀ fhp ∈ lxapiGetFilehandleStruct handle1 s.filehandles,
        ∀ fhp' ∈ s.filehandles, fhp'.type = fhp.type → fhp'.realHandle ≠ handle2
  | _ => True

/-- An operation is carried out on a real handle, in the subsystem of its type. -/
structure Reaches (s : LibC) (fhp : LxFilehandle) (op : HandleOp) (answer : Except Refusal ℤ)
    (s' : LibC) : Prop where
  /-- This subsystem is asked for it, and nothing else. -/
  asked : s'.asked = s.asked ++ [(fhp.type, .op op fhp.realHandle)]
  /-- It does it. -/
  tables : s'.tables = Function.update s.tables fhp.type
    (serveOp (s.tables fhp.type) op fhp.realHandle answer).2

/-- Operations on mapped handles are carried out on their real handles, and refused for other
numbers. -/
def Dispatched (s : LibC) : LxCall → Prop
  | .op handle op answer entry =>
    (∀ fhp ∈ s.filehandles, fhp.mappedHandle = handle →
      Reaches s fhp op answer (s.handleOp handle op answer entry).2) ∧
    ((∀ fhp ∈ s.filehandles, fhp.mappedHandle ≠ handle) →
      s.handleOp handle op answer entry = (-1, s))
  | _ => True

/-- The operation fits to the handle. -/
def Served (s : LibC) : LxCall → Prop
  | .op handle op _ _ =>
    (∀ fhp ∈ s.filehandles, fhp.mappedHandle = handle → op.OnlySyscall → fhp.type = .lx) ∧
    ((∀ fhp ∈ s.filehandles, fhp.mappedHandle ≠ handle) → ¬ op.ReturnsZero)
  | _ => True

/-- What a call does to the handles and the open files. -/
inductive Change (s : LibC) (c : LxCall) (s' : LibC) : Prop
  /-- Nothing. -/
  | same (hf : s'.filehandles = s.filehandles) (ht : s'.tables = s.tables)
  /-- A file is opened, and registered if there is memory. -/
  | opened (type : FhType) (f : ℕ) (mappedHandle : ℤ) (entry : Bool)
      (hnew : ∀ fhp ∈ s.filehandles, fhp.mappedHandle ≠ mappedHandle)
      (hf : s'.filehandles = if entry then
        ⟨type, mappedHandle, ((s.tables type).openLowest f).1⟩ :: s.filehandles
        else s.filehandles)
      (ht : s'.tables = Function.update s.tables type ((s.tables type).openLowest f).2)
  /-- The number that is asked for is a file's, and registered if there is memory. -/
  | dup2 (handle1 handle2 : ℤ) (entry : Bool) (fhp : LxFilehandle) (f : ℕ)
      (hc : c = .dup2 handle1 handle2 none entry)
      (hfhp : lxapiGetFilehandleStruct handle1 s.filehandles = some fhp)
      (hnew : lxapiGetFilehandleStruct handle2 s.filehandles = none) (hle : 0 ≤ handle2)
      (hf : s'.filehandles = if entry then ⟨fhp.type, handle2, handle2⟩ :: s.filehandles
        else s.filehandles)
      (ht : s'.tables = Function.update s.tables fhp.type
        ((s.tables fhp.type).insert handle2 f))
  /-- A mapped handle is given up, and its file closed or not. -/
  | closed (handle : ℤ) (fhp : LxFilehandle)
      (hfhp : lxapiGetFilehandleStruct handle s.filehandles = some fhp)
      (hf : s'.filehandles = lxapiDeregisterFilehandle handle s.filehandles)
      (ht : s'.tables = s.tables ∨ s'.tables = Function.update s.tables fhp.type
        ((s.tables fhp.type).erase fhp.realHandle))

variable {s s' s₁ : LibC} {c : LxCall} {tables : FhType → Descriptors ℕ}

/-! ### What a call does -/

@[simp]
theorem ask_tables (s : LibC) (type : FhType) (r : Request) (served : ℤ × Descriptors ℕ) :
    (s.ask type r served).2.tables = Function.update s.tables type served.2 :=
  rfl

/-- What is asked for and refused changes no file. -/
theorem ask_tables_of_eq (s : LibC) {type : FhType} (r : Request) {served : ℤ × Descriptors ℕ}
    (h : served.2 = s.tables type) : (s.ask type r served).2.tables = s.tables := by
  rw [ask_tables, h, Function.update_eq_self]

theorem neg_errEBADF : -errEBADF < 0 := by decide

/-- A subsystem opens a file, or fails to. -/
def Opens (t : Descriptors ℕ) (served : ℤ × Descriptors ℕ) : Prop :=
  (served.1 < 0 ∧ served.2 = t) ∨ ∃ f, served = t.openLowest f

theorem opens_serveOpen (t : Descriptors ℕ) (answer : Except Refusal ℕ) :
    Opens t (serveOpen t answer) := by
  cases answer with
  | error e => exact .inl ⟨e.neg, rfl⟩
  | ok f => exact .inr ⟨f, rfl⟩

theorem opens_serveOp_dup (t : Descriptors ℕ) (handle : ℤ) (answer : Except Refusal ℤ) :
    Opens t (serveOp t .dup handle answer) := by
  cases answer with
  | error e => exact .inl ⟨e.neg, rfl⟩
  | ok rc =>
    unfold serveOp
    dsimp only
    cases hdup : t.dup handle with
    | none => exact .inl ⟨neg_errEBADF, rfl⟩
    | some r => exact .inr (Descriptors.dup_eq_some hdup)

theorem Opens.eq_of_neg {t : Descriptors ℕ} {served : ℤ × Descriptors ℕ} (h : Opens t served)
    (hneg : served.1 < 0) : served.2 = t := by
  rcases h with ⟨-, heq⟩ | ⟨f, rfl⟩
  · exact heq
  · have hle := Descriptors.zero_le_openLowest t f
    omega

theorem register_filehandles (s : LibC) (handle : ℤ) (type : FhType) (entry : Bool) :
    ∃ mappedHandle, (∀ fhp ∈ s.filehandles, fhp.mappedHandle ≠ mappedHandle) ∧
      (s.register handle type entry).2.filehandles =
        if entry then ⟨type, mappedHandle, handle⟩ :: s.filehandles else s.filehandles :=
  lxapiRegisterFilehandle_snd handle type entry s.filehandles

/-- A subsystem is asked to open a file, after the other one perhaps, which has refused. -/
theorem openReal_cases (s : LibC) (r : Request) (unix : Bool) (lx os : Except Refusal ℕ) :
    ∃ s₁ type, s₁.filehandles = s.filehandles ∧ s₁.tables = s.tables ∧
      (s.openReal r unix lx os = (type, -1, s₁) ∨ ∃ answer,
        s.openReal r unix lx os = (type, s₁.ask type r (serveOpen (s₁.tables type) answer))) := by
  unfold openReal
  dsimp only
  split_ifs with hunix hneg hperm
  · exact ⟨(s.ask .lx r (serveOpen (s.tables .lx) lx)).2, .os, rfl,
      ask_tables_of_eq s r ((opens_serveOpen _ lx).eq_of_neg hneg), .inr ⟨os, rfl⟩⟩
  · exact ⟨{ (s.ask .lx r (serveOpen (s.tables .lx) lx)).2 with
      errno := (serveOpen (s.tables .lx) lx).1 }, .lx, rfl,
      ask_tables_of_eq s r ((opens_serveOpen _ lx).eq_of_neg hneg), .inl rfl⟩
  · exact ⟨s, .lx, rfl, rfl, .inr ⟨lx, rfl⟩⟩
  · exact ⟨s, .os, rfl, rfl, .inr ⟨os, rfl⟩⟩

/-- What has been opened is registered. -/
theorem change_opens (type : FhType) (r : Request) (entry : Bool) (rc : ℤ)
    (hf : s₁.filehandles = s.filehandles) (ht : s₁.tables = s.tables) {served : ℤ × Descriptors ℕ}
    (hopens : Opens (s₁.tables type) served) {a : ℤ × LibC} (ha : a = s₁.ask type r served) :
    Change s c (if 0 ≤ a.1 then a.2.register a.1 type entry else (rc, a.2)).2 := by
  have hhandles : a.2.filehandles = s.filehandles := ha ▸ hf
  have hrc : a.1 = served.1 := ha ▸ rfl
  rcases hopens with ⟨hneg, hsame⟩ | ⟨f, rfl⟩
  · rw [if_neg (by omega)]
    refine .same hhandles ?_
    rw [ha, ask_tables_of_eq s₁ r hsame, ht]
  · have hle := Descriptors.zero_le_openLowest (s₁.tables type) f
    rw [if_pos (by omega)]
    obtain ⟨mappedHandle, hnew, hreg⟩ := register_filehandles a.2 a.1 type entry
    rw [hhandles] at hnew hreg
    refine .opened type f mappedHandle entry hnew ?_ ?_
    · rw [hreg, hrc, ht]
    · have htables : (a.2.register a.1 type entry).2.tables = a.2.tables := rfl
      rw [htables, ha, ask_tables, ht]

theorem change_openFile (request : Bytes → Request) (pathname : Bytes) (copy : Option Bytes)
    (lx os : Except Refusal ℕ) (entry : Bool) :
    Change s c (s.openFile request pathname copy lx os entry).2 := by
  cases copy with
  | none => exact .same rfl rfl
  | some behind =>
    unfold openFile
    dsimp only
    obtain ⟨s₁, type, hf, ht, heq | ⟨answer, heq⟩⟩ := s.openReal_cases
      (request (CString.str (CString.strncpy [] pathname lxMaxPath ++ behind)))
      (maybeUnixFile (CString.strncpy [] pathname lxMaxPath ++ behind)) lx os
    · rw [heq]
      exact .same hf ht
    · rw [heq]
      exact change_opens type _ entry _ hf ht (opens_serveOpen _ answer) rfl

/-- A number that is asked for is a file's then, or `dup2` fails. -/
theorem serveDup2_cases (t : Descriptors ℕ) (handle1 handle2 : ℤ) (refused : Option Refusal) :
    ((serveDup2 t handle1 handle2 refused).1 < 0 ∧ (serveDup2 t handle1 handle2 refused).2 = t) ∨
      (refused = none ∧ 0 ≤ handle2 ∧
        ∃ f, serveDup2 t handle1 handle2 refused = (handle2, t.insert handle2 f)) := by
  cases refused with
  | some e => exact .inl ⟨e.neg, rfl⟩
  | none =>
    unfold serveDup2
    dsimp only
    cases hdup : t.dup2 handle1 handle2 with
    | none => exact .inl ⟨neg_errEBADF, rfl⟩
    | some t' =>
      obtain ⟨hle, f, -, rfl⟩ := Descriptors.dup2_eq_some hdup
      exact .inr ⟨rfl, hle, f, rfl⟩

theorem change_dup2 (handle1 handle2 : ℤ) (refused : Option Refusal) (entry : Bool) :
    Change s (.dup2 handle1 handle2 refused entry)
      (s.lxapiDup2 handle1 handle2 refused entry).2 := by
  unfold lxapiDup2
  cases hnew : lxapiGetFilehandleStruct handle2 s.filehandles with
  | some _ => exact .same rfl rfl
  | none =>
    cases hfhp : lxapiGetFilehandleStruct handle1 s.filehandles with
    | none => exact .same rfl rfl
    | some fhp =>
      dsimp only
      generalize ha : s.ask fhp.type (.dup2 fhp.realHandle handle2)
        (serveDup2 (s.tables fhp.type) fhp.realHandle handle2 refused) = a
      have hrc : a.1 = (serveDup2 (s.tables fhp.type) fhp.realHandle handle2 refused).1 :=
        ha ▸ rfl
      rcases serveDup2_cases (s.tables fhp.type) fhp.realHandle handle2 refused with
        ⟨hneg, hsame⟩ | ⟨rfl, hle, f, heq⟩
      · rw [if_neg (by simp), if_neg (by omega)]
        refine .same (ha ▸ rfl) ?_
        rw [← ha, ask_tables_of_eq s _ hsame]
      · rw [heq] at hrc ha
        rw [if_neg (by simp), if_pos (by omega)]
        subst ha
        refine .dup2 handle1 handle2 entry fhp f rfl hfhp hnew hle ?_ rfl
        cases entry <;> rfl

theorem change_dup (handle : ℤ) (answer : Except Refusal ℤ) (entry : Bool) :
    Change s c (s.lxapiDup handle answer entry).2 := by
  unfold lxapiDup
  cases hfhp : lxapiGetFilehandleStruct handle s.filehandles with
  | none => exact .same rfl rfl
  | some fhp => exact change_opens fhp.type _ entry _ rfl rfl (opens_serveOp_dup _ _ answer) rfl

theorem change_close (handle : ℤ) (answer : Except Refusal ℤ) :
    Change s c (s.lxapiClose handle answer).2 := by
  unfold lxapiClose byType
  cases hfhp : lxapiGetFilehandleStruct handle s.filehandles with
  | none =>
    exact .same (lxapiDeregisterFilehandle_of_none hfhp) rfl
  | some fhp =>
    refine .closed handle fhp hfhp rfl ?_
    cases answer with
    | error e => exact .inl (Function.update_eq_self ..)
    | ok rc => exact .inr rfl

theorem serveOp_of_ne {t : Descriptors ℕ} {op : HandleOp} (hdup : op ≠ .dup) (hclose : op ≠ .close)
    (handle : ℤ) (answer : Except Refusal ℤ) : (serveOp t op handle answer).2 = t := by
  cases answer with
  | error e => rfl
  | ok rc => cases op <;> first | rfl | contradiction

/-- Operations other than `dup` and `close` change neither handles nor open files. -/
theorem change_handleOp (handle : ℤ) (op : HandleOp) (answer : Except Refusal ℤ) (entry : Bool) :
    Change s c (s.handleOp handle op answer entry).2 := by
  have hbyType (hdup : op ≠ .dup) (hclose : op ≠ .close) (rc : ℤ) :
      Change s c (s.byType handle op answer rc).2 := by
    unfold byType
    split
    · exact .same rfl rfl
    · exact .same rfl (ask_tables_of_eq s _ (serveOp_of_ne hdup hclose ..))
  have hbySyscall (hdup : op ≠ .dup) (hclose : op ≠ .close) :
      Change s c (s.bySyscall handle op answer).2 := by
    unfold bySyscall
    split
    · exact .same rfl rfl
    · exact .same rfl (ask_tables_of_eq s _ (serveOp_of_ne hdup hclose ..))
  cases op with
  | read | write | lseek => exact hbyType nofun nofun 0
  | dup => exact change_dup handle answer entry
  | close => exact change_close handle answer
  | fchmod | ftruncate | readdir | getdents => exact hbySyscall nofun nofun

theorem change_call (s : LibC) (c : LxCall) : Change s c (s.call c).2 := by
  cases c with
  | «open» pathname copy lx os entry => exact change_openFile _ pathname copy lx os entry
  | creat pathname copy lx os entry => exact change_openFile _ pathname copy lx os entry
  | dup2 handle1 handle2 refused entry => exact change_dup2 handle1 handle2 refused entry
  | op handle op answer entry => exact change_handleOp handle op answer entry

/-! ### Independence -/

/-- What holds between calls as long as real handles are not taken. -/
structure Apart (s : LibC) : Prop where
  /-- Mapped handles are different. -/
  mapped : Mapped s.filehandles
  /-- Files are different. -/
  distinct : (s.filehandles.map fun fhp => (fhp.type, fhp.realHandle)).Nodup
  /-- They are open. -/
  opened : ∀ fhp ∈ s.filehandles, fhp.realHandle ∈ s.tables fhp.type

/-- Files in different places. -/
theorem Apart.ne (h : Apart s) {fhp fhp' : LxFilehandle} (hfhp : fhp ∈ s.filehandles)
    (hfhp' : fhp' ∈ s.filehandles) (hne : fhp ≠ fhp') (htype : fhp'.type = fhp.type) :
    fhp'.realHandle ≠ fhp.realHandle := fun hreal =>
  hne (List.inj_on_of_nodup_map h.distinct hfhp hfhp' (Prod.ext htype.symm hreal.symm))

/-- An erasure of another file's number. -/
theorem lookup_update_erase {type : FhType} {handle : ℤ} {fhp : LxFilehandle}
    (hne : fhp.type = type → fhp.realHandle ≠ handle) :
    (Function.update s.tables type ((s.tables type).erase handle) fhp.type).lookup fhp.realHandle =
      (s.tables fhp.type).lookup fhp.realHandle := by
  by_cases htype : fhp.type = type
  · have hreal := hne htype
    subst htype
    rw [Function.update_self, AList.lookup_erase_ne hreal]
  · rw [Function.update_of_ne htype]

theorem Apart.independent (h : Apart s) : Independent s where
  distinct := h.distinct
  opened := h.opened
  close fhp hfhp fhp' hfhp' hne answer := by
    have hget := h.mapped.get_iff.2 ⟨hfhp, rfl⟩
    have htables : (s.lxapiClose fhp.mappedHandle answer).2.tables =
        (s.byType fhp.mappedHandle .close answer (-1)).2.tables := rfl
    rw [htables]
    unfold byType
    rw [hget]
    dsimp only
    cases answer with
    | error e =>
      dsimp only [serveOp]
      rw [ask_tables_of_eq s _ rfl]
    | ok rc => exact lookup_update_erase (h.ne hfhp hfhp' hne)

/-- A file is opened under a number that no registered file has. -/
theorem Apart.enter (h : Apart s) {type : FhType} {n m : ℤ} {f : ℕ} {entry : Bool}
    (hf : s'.filehandles = if entry then ⟨type, m, n⟩ :: s.filehandles else s.filehandles)
    (ht : s'.tables = Function.update s.tables type ((s.tables type).insert n f))
    (hnew : ∀ fhp ∈ s.filehandles, fhp.mappedHandle ≠ m)
    (hapart : entry = true → ∀ fhp ∈ s.filehandles, fhp.type = type → fhp.realHandle ≠ n) :
    Apart s' := by
  have hmem {fhp : LxFilehandle} (hfhp : fhp ∈ s.filehandles) :
      fhp.realHandle ∈ s'.tables fhp.type := by
    have hopened := h.opened fhp hfhp
    rw [ht]
    by_cases htype : fhp.type = type
    · rw [htype] at hopened ⊢
      rw [Function.update_self]
      exact (AList.mem_insert _).2 (.inr hopened)
    · rw [Function.update_of_ne htype]
      exact hopened
  cases entry with
  | false =>
    have hsame : s'.filehandles = s.filehandles := hf
    exact ⟨hsame ▸ h.mapped, hsame ▸ h.distinct, fun fhp hfhp => hmem (hsame ▸ hfhp)⟩
  | true =>
    have hcons : s'.filehandles = ⟨type, m, n⟩ :: s.filehandles := hf
    refine ⟨hcons ▸ h.mapped.cons hnew, ?_, ?_⟩
    · rw [hcons]
      refine List.nodup_cons.2 ⟨fun hin => ?_, h.distinct⟩
      obtain ⟨fhp, hfhp, heq⟩ := List.mem_map.1 hin
      exact hapart rfl fhp hfhp (Prod.mk.inj heq).1 (Prod.mk.inj heq).2
    · rw [hcons]
      refine List.forall_mem_cons.2 ⟨?_, fun fhp hfhp => hmem hfhp⟩
      rw [ht, Function.update_self]
      exact (AList.mem_insert _).2 (.inl rfl)

/-- A mapped handle is given up. -/
theorem Apart.leave (h : Apart s) {handle : ℤ} {fhp : LxFilehandle}
    (hfhp : lxapiGetFilehandleStruct handle s.filehandles = some fhp)
    (hf : s'.filehandles = lxapiDeregisterFilehandle handle s.filehandles)
    (ht : s'.tables = s.tables ∨ s'.tables = Function.update s.tables fhp.type
      ((s.tables fhp.type).erase fhp.realHandle)) : Apart s' := by
  have hsub : s'.filehandles.Sublist s.filehandles := hf ▸ List.eraseP_sublist
  refine ⟨hf ▸ h.mapped.deregister handle, h.distinct.sublist (hsub.map _), fun fhp' hfhp' => ?_⟩
  rw [hf, h.mapped.mem_deregister] at hfhp'
  obtain ⟨hin, hhandle⟩ := mem_of_get hfhp
  have hne : fhp ≠ fhp' := fun heq => hfhp'.2 (heq ▸ hhandle)
  have hopened := h.opened fhp' hfhp'.1
  rcases ht with ht | ht
  · exact ht ▸ hopened
  · rw [ht, ← AList.lookup_isSome, lookup_update_erase (h.ne hin hfhp'.1 hne)]
    exact AList.lookup_isSome.2 hopened

/-- Calls that do not take a real handle keep the files apart. -/
theorem apart_of_change (h : Apart s) (hc : KeepsApart s c) (hchange : Change s c s') :
    Apart s' := by
  cases hchange with
  | same hf ht => exact ⟨hf ▸ h.mapped, hf ▸ h.distinct, hf ▸ ht ▸ h.opened⟩
  | opened type f mappedHandle entry hnew hf ht =>
    refine h.enter hf ht hnew fun _ fhp hfhp htype heq => ?_
    exact Descriptors.openLowest_notMem (s.tables type) f (heq ▸ htype ▸ h.opened fhp hfhp)
  | dup2 handle1 handle2 entry fhp f hcall hfhp hnew hle hf ht =>
    subst hcall
    refine h.enter hf ht (lxapiGetFilehandleStruct_eq_none_iff.1 hnew) fun hentry => ?_
    exact hc hnew hle rfl hentry fhp hfhp
  | closed handle fhp hfhp hf ht => exact h.leave hfhp hf ht

/-- An `LXAPI_dup2` that takes a real handle leaves two mapped handles with it. -/
theorem keepsApart_of_independent (h : Apart s) (hind : Independent (s.call c).2) :
    KeepsApart s c := by
  cases c with
  | «open» | creat | op => trivial
  | dup2 handle1 handle2 refused entry =>
    intro hnew hle hrefused hentry fhp hfhp fhp' hfhp' htype hreal
    subst hrefused hentry
    have hfhp : lxapiGetFilehandleStruct handle1 s.filehandles = some fhp := hfhp
    obtain ⟨hin, -⟩ := mem_of_get hfhp
    obtain ⟨f, hf⟩ := Option.isSome_iff_exists.1 (AList.lookup_isSome.2 (h.opened fhp hin))
    have hdup2 : serveDup2 (s.tables fhp.type) fhp.realHandle handle2 none =
        (handle2, (s.tables fhp.type).insert handle2 f) := by
      simp [serveDup2, Descriptors.dup2, hf, Int.not_lt.2 hle]
    have hcons : (s.call (.dup2 handle1 handle2 none true)).2.filehandles =
        ⟨fhp.type, handle2, handle2⟩ :: s.filehandles := by
      simp [call, lxapiDup2, hnew, hfhp, hdup2, ask, hle, registerReal,
        lxapiRegisterRealFilehandle]
    have hdistinct := hind.distinct
    rw [hcons] at hdistinct
    refine (List.nodup_cons.1 hdistinct).1 (List.mem_map.2 ⟨fhp', hfhp', ?_⟩)
    rw [htype, hreal]

theorem apart_init (tables : FhType → Descriptors ℕ) : Apart (machine tables).init :=
  ⟨.nil, .nil, nofun⟩

theorem exists_exec (tables : FhType → Descriptors ℕ) (cs : List LxCall) :
    ∃ s', (machine tables).exec (machine tables).init cs = some s' :=
  Machine.exists_exec (fun _ _ => ⟨_, rfl⟩) _ cs

/-- **Mapped handles stand for different files** in every sequence of calls, exactly if no
`LXAPI_dup2` takes a real handle that is registered. -/
theorem always_independent_iff (tables : FhType → Descriptors ℕ) (cs : List LxCall) :
    (machine tables).Always Independent (machine tables).init cs ↔
      (machine tables).Along KeepsApart (machine tables).init cs := by
  obtain ⟨s', hs'⟩ := exists_exec tables cs
  refine Machine.always_iff_along (I := Apart) (fun _ h => h.independent) ?_ ?_
    (apart_init tables) hs'
  · rintro s c _ h hc ⟨⟩
    exact apart_of_change h hc (change_call s c)
  · rintro s c _ h ⟨⟩ hind
    exact keepsApart_of_independent h hind

/-- The standard files are open in both subsystems. -/
def stdTables : FhType → Descriptors ℕ := fun _ => ((AList.singleton 0 0).insert 1 1).insert 2 2

/-- Two files are opened, with the real handles 3 and 4, and `LXAPI_dup2` asks for 4. -/
def takenRun : List LxCall :=
  [.open [0x61] (some []) (.ok 3) (.ok 3) true, .open [0x62] (some []) (.ok 4) (.ok 4) true,
    .dup2 2 4 none true]

theorem not_always_independent :
    ¬ (machine stdTables).Always Independent (machine stdTables).init takenRun := by
  intro h
  obtain ⟨s', hs'⟩ := exists_exec stdTables takenRun
  have hind := h.last hs'
  have hfhs : s'.filehandles = [⟨.lx, 4, 4⟩, ⟨.lx, 3, 4⟩, ⟨.lx, 2, 3⟩] := by
    cases hs'
    decide +kernel
  have hdistinct := hind.distinct
  rw [hfhs] at hdistinct
  exact absurd hdistinct (by decide)

/-! ### Where operations go -/

theorem mapped_of_change (h : Mapped s.filehandles) (hchange : Change s c s') :
    Mapped s'.filehandles := by
  cases hchange with
  | same hf ht => exact hf ▸ h
  | opened type f mappedHandle entry hnew hf ht =>
    rw [hf]
    split_ifs
    · exact h.cons hnew
    · exact h
  | dup2 handle1 handle2 entry fhp f hcall hfhp hnew hle hf ht =>
    rw [hf]
    split_ifs
    · exact h.cons (lxapiGetFilehandleStruct_eq_none_iff.1 hnew)
    · exact h
  | closed handle fhp hfhp hf ht => exact hf ▸ h.deregister handle

section

variable {handle : ℤ} {fhp : LxFilehandle} {op : HandleOp} {answer : Except Refusal ℤ}
  {entry : Bool}

theorem reaches_ask (type : FhType) :
    Reaches s fhp op answer (s.ask type (.op op fhp.realHandle)
      (serveOp (s.tables type) op fhp.realHandle answer)).2 ↔ fhp.type = type := by
  constructor
  · intro h
    have hasked := List.append_cancel_left h.asked
    exact (Prod.mk.inj (List.cons.inj hasked).1).1.symm
  · rintro rfl
    exact ⟨rfl, rfl⟩

theorem reaches_byType (hfhp : lxapiGetFilehandleStruct handle s.filehandles = some fhp) (rc : ℤ) :
    Reaches s fhp op answer (s.byType handle op answer rc).2 := by
  unfold byType
  rw [hfhp]
  exact (reaches_ask _).2 rfl

theorem reaches_bySyscall (hfhp : lxapiGetFilehandleStruct handle s.filehandles = some fhp) :
    Reaches s fhp op answer (s.bySyscall handle op answer).2 ↔ fhp.type = .lx := by
  unfold bySyscall
  rw [hfhp]
  exact reaches_ask _

/-- Operations on a mapped handle go to its subsystem, or always to Linux. -/
theorem reaches_handleOp (hfhp : lxapiGetFilehandleStruct handle s.filehandles = some fhp) :
    Reaches s fhp op answer (s.handleOp handle op answer entry).2 ↔
      (op.OnlySyscall → fhp.type = .lx) := by
  cases op with
  | read | write | lseek => exact iff_of_true (reaches_byType hfhp 0) False.elim
  | close =>
    have hreaches : Reaches s fhp .close answer (s.byType handle .close answer (-1)).2 :=
      reaches_byType hfhp (-1)
    exact iff_of_true ⟨hreaches.asked, hreaches.tables⟩ False.elim
  | dup =>
    refine iff_of_true ?_ False.elim
    have hreaches : Reaches s fhp .dup answer (s.ask fhp.type (.op .dup fhp.realHandle)
      (serveOp (s.tables fhp.type) .dup fhp.realHandle answer)).2 := (reaches_ask _).2 rfl
    unfold handleOp lxapiDup
    dsimp only
    rw [hfhp]
    dsimp only
    split_ifs
    · exact ⟨hreaches.asked, hreaches.tables⟩
    · exact hreaches
  | fchmod | ftruncate | readdir | getdents =>
    exact (reaches_bySyscall hfhp).trans ⟨fun htype _ => htype, fun h => h trivial⟩

/-- Numbers that are not mapped handles are refused, or give 0. -/
theorem handleOp_of_none (hnone : lxapiGetFilehandleStruct handle s.filehandles = none) :
    s.handleOp handle op answer entry = (-1, s) ↔ ¬ op.ReturnsZero := by
  have hbyType (rc : ℤ) : s.byType handle op answer rc = (rc, s) := by
    unfold byType
    rw [hnone]
  have hbySyscall : s.bySyscall handle op answer = (-1, s) := by
    unfold bySyscall
    rw [hnone]
  cases op with
  | read | write | lseek =>
    refine iff_of_false (fun h => ?_) (not_not_intro trivial)
    have hrc : (0 : ℤ) = -1 := congrArg Prod.fst ((hbyType 0).symm.trans h)
    exact absurd hrc (by decide)
  | dup =>
    refine iff_of_true ?_ not_false
    unfold handleOp lxapiDup
    dsimp only
    rw [hnone]
  | close =>
    refine iff_of_true ?_ not_false
    unfold handleOp lxapiClose
    dsimp only
    rw [hbyType, lxapiDeregisterFilehandle_of_none hnone]
  | fchmod | ftruncate | readdir | getdents => exact iff_of_true hbySyscall not_false

end

theorem dispatched_iff (h : Mapped s.filehandles) (c : LxCall) : s.Dispatched c ↔ s.Served c := by
  cases c with
  | «open» | creat | dup2 => exact Iff.rfl
  | op handle op answer entry =>
    refine and_congr (forall₃_congr fun fhp hfhp hhandle => ?_)
      (forall_congr' fun hnone => handleOp_of_none ?_)
    · exact reaches_handleOp (h.get_iff.2 ⟨hfhp, hhandle⟩)
    · exact lxapiGetFilehandleStruct_eq_none_iff.2 hnone

/-- **Operations reach their files** in every sequence of calls, except those that use a system call
for a file of OS/2, or return 0 for a number that is not a mapped handle. -/
theorem along_dispatched_iff (tables : FhType → Descriptors ℕ) (cs : List LxCall) :
    (machine tables).Along (fun s c => s.Dispatched c ↔ s.Served c) (machine tables).init cs := by
  refine Machine.along_of_along (G := Machine.anyStep) (I := fun s => Mapped s.filehandles)
    (fun s c h _ => dispatched_iff h c) ?_ ?_ (Machine.along_anyStep _ cs)
  · rintro s c _ h - ⟨⟩
    exact mapped_of_change h (change_call s c)
  · exact List.nodup_nil

/-- A file of Linux and a file of OS/2 are opened, both with the real handle 3, and the one of OS/2
is cut off. -/
def osRun : List LxCall :=
  [.open [0x61] (some []) (.ok 3) (.ok 3) true, .open [0x5C, 0x61] (some []) (.ok 4) (.ok 4) true,
    .op 3 (.ftruncate 0) (.ok 0) true]

theorem not_along_dispatched :
    ¬ (machine stdTables).Along Dispatched (machine stdTables).init osRun := by
  intro h
  have hdispatched := ((h.2 _ rfl).2 _ rfl).1
  have hreaches := hdispatched.1 ⟨.os, 3, 3⟩ (by decide +kernel) rfl
  exact absurd hreaches.asked (by decide +kernel)

end LibC

end LxApi32
