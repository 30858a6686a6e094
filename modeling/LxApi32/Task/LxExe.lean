import LxApi32.Kernel.UtlList

/-!
# Starting a program

`load_lxexe_binary` starts a program of OS/2 for a Linux task, and has three buffers from
`kmalloc` for it.

* `released_kmalloc` : what becomes of the buffers when one of them is missing.
* `buffersReleased_iff` : when each of them is freed once, and not used afterwards.
* `found_of_set` : when the stack entry of the new process is found.
-/

namespace LxApi32

/-- The buffers. -/
inductive ExeBuffer
  /-- `fn` -/
  | fn
  /-- `failname` -/
  | failname
  /-- `args` -/
  | args
  deriving DecidableEq, Repr

/-- What is done with a buffer. -/
inductive BufferOp
  /-- `kmalloc` returns it. -/
  | kmalloc (b : ExeBuffer)
  /-- It is read or written. -/
  | use (b : ExeBuffer)
  /-- `kfree` -/
  | kfree (b : ExeBuffer)
  deriving DecidableEq, Repr

/-- What comes of the steps of `load_lxexe_binary`. -/
structure ExeOutcome where
  /-- `bprm->buf[0]` and `bprm->buf[1]` -/
  buf : UInt8 × UInt8
  /-- `kmalloc` returns the buffer. -/
  kmalloc : ExeBuffer → Bool
  /-- The result of `LX_os2path_from_file`. -/
  pathRc : ULONG
  /-- The result of `LX_DOSEXECPGM`. -/
  execRc : ULONG
  /-- The result of `flush_old_exec`. -/
  flushRc : ULONG
  /-- `resultcodes.codeTerminate` -/
  codeTerminate : ULONG
  /-- `lx_UtlStackRoot` when `LX_UtilStackWaitForCaptureAndExit` looks for the entry. -/
  utl : List UtlStack

/-- `-ENOEXEC` -/
def negENOEXEC : ULONG := -8

/-! ### The function -/

/-- `kmalloc` of the three buffers. -/
def kmallocOps (k : ExeBuffer → Bool) : List BufferOp :=
  (if k .fn then [.kmalloc .fn] else []) ++ (if k .failname then [.kmalloc .failname] else []) ++
    (if k .args then [.kmalloc .args] else [])

/-- `kfree` of the three buffers; `kfree(0)` does nothing. -/
def kfreeOps (k : ExeBuffer → Bool) : List BufferOp :=
  (if k .fn then [.kfree .fn] else []) ++ (if k .failname then [.kfree .failname] else []) ++
    (if k .args then [.kfree .args] else [])

/-- From `memset(args,0,MAX_ARG_LEN)` to `strlen(pa)`. -/
def argumentOps : List BufferOp :=
  [.use .args, .use .failname, .use .args, .use .fn, .use .args, .use .args, .use .args]

/-- `LX_DOSEXECPGM` -/
def execOps : List BufferOp := [.use .failname, .use .args, .use .fn]

/-- The messages when `LX_DOSEXECPGM` fails. -/
def messageOps : List BufferOp := [.use .fn, .use .failname]

/-- `LX_UtilStackWaitForCaptureAndExit` finds an entry; it does not return then. -/
def ExeOutcome.found (o : ExeOutcome) : Bool :=
  (findUtlstackPidtid ⟨o.codeTerminate.setWidth 16, 1⟩ o.utl).isSome

/-- `load_lxexe_binary`: the result, none if it does not return, and what it does with the
buffers. -/
def loadLxexeBinary (o : ExeOutcome) : Option ULONG × List BufferOp :=
  if o.buf ≠ (0x4d, 0x5a) then (some negENOEXEC, [])
  else if !o.kmalloc .fn || !o.kmalloc .failname || !o.kmalloc .args then
    (some negENOMEM, kmallocOps o.kmalloc ++ kfreeOps o.kmalloc)
  else if o.pathRc ≠ 0 then
    (some o.pathRc, kmallocOps o.kmalloc ++ [.use .fn] ++ kfreeOps o.kmalloc)
  else
    let ops := kmallocOps o.kmalloc ++ [.use .fn] ++ argumentOps ++ execOps
    if o.execRc = 0 then
      if o.flushRc ≠ 0 then (some o.flushRc, ops)
      else if o.found then (none, ops ++ kfreeOps o.kmalloc)
      -- on to `err_out`
      else (some 0, ops ++ kfreeOps o.kmalloc ++ kfreeOps o.kmalloc)
    else (some o.execRc, ops ++ messageOps ++ kfreeOps o.kmalloc)

/-! ### The buffers -/

/-- The state of a buffer. -/
inductive BufferState
  /-- It is not allocated yet. -/
  | none
  /-- It is allocated. -/
  | allocated
  /-- It was freed. -/
  | freed
  deriving DecidableEq, Repr

/-- The memory of the buffers; only an allocated one can be used and freed. -/
def bufferMachine : Machine (ExeBuffer → BufferState) BufferOp where
  init _ := .none
  step s
    | .kmalloc b => if s b = .none then some (Function.update s b .allocated) else none
    | .use b => if s b = .allocated then some s else none
    | .kfree b => if s b = .allocated then some (Function.update s b .freed) else none

/-- The buffers are used and freed while they are allocated, and all of them are freed in the
end. -/
def BuffersReleased (ops : List BufferOp) : Prop :=
  ∃ s, bufferMachine.exec bufferMachine.init ops = some s ∧ ∀ b, s b ≠ .allocated

/-- The evaluation of this. -/
def releasedBy (ops : List BufferOp) : Bool :=
  match bufferMachine.exec bufferMachine.init ops with
  | none => false
  | some s => s .fn != .allocated && s .failname != .allocated && s .args != .allocated

theorem releasedBy_iff (ops : List BufferOp) : releasedBy ops = true ↔ BuffersReleased ops := by
  unfold releasedBy BuffersReleased
  cases bufferMachine.exec bufferMachine.init ops with
  | none => simp
  | some s =>
    simp only [Bool.and_eq_true, bne_iff_ne, Option.some.injEq, exists_eq_left']
    exact ⟨fun h b => by cases b <;> simp [h], fun h => ⟨⟨h .fn, h .failname⟩, h .args⟩⟩

instance (ops : List BufferOp) : Decidable (BuffersReleased ops) :=
  decidable_of_iff _ (releasedBy_iff ops)

/-- The program is started, but then the old one cannot be given up, or the entry of the new
process is not found. -/
def LateFailure (o : ExeOutcome) : Prop :=
  o.buf = (0x4d, 0x5a) ∧ (∀ b, o.kmalloc b = true) ∧ o.pathRc = 0 ∧ o.execRc = 0 ∧
    (o.flushRc ≠ 0 ∨ o.found = false)

/-- What was allocated is freed when an allocation fails. -/
theorem released_kmalloc (k : ExeBuffer → Bool) :
    BuffersReleased (kmallocOps k ++ kfreeOps k) := by
  unfold kmallocOps kfreeOps
  cases k .fn <;> cases k .failname <;> cases k .args <;> decide

theorem kmalloc_test (k : ExeBuffer → Bool) :
    (!k .fn || !k .failname || !k .args) = true ↔ ¬ ∀ b, k b = true := by
  constructor
  · intro h hk
    simp [hk] at h
  · intro h
    by_contra htest
    refine h fun b => ?_
    cases b <;> simp_all

/-- Each buffer is freed once, and not used afterwards, if and only if no step fails after the
program was started. -/
theorem buffersReleased_iff (o : ExeOutcome) :
    BuffersReleased (loadLxexeBinary o).2 ↔ ¬ LateFailure o := by
  unfold loadLxexeBinary LateFailure
  by_cases hbuf : o.buf = (0x4d, 0x5a)
  · rw [if_neg (not_not_intro hbuf)]
    by_cases hk : ∀ b, o.kmalloc b = true
    · have hmalloc : kmallocOps o.kmalloc = [.kmalloc .fn, .kmalloc .failname, .kmalloc .args] := by
        simp [kmallocOps, hk]
      have hfree : kfreeOps o.kmalloc = [.kfree .fn, .kfree .failname, .kfree .args] := by
        simp [kfreeOps, hk]
      rw [if_neg fun h => (kmalloc_test o.kmalloc).1 h hk, hmalloc, hfree]
      by_cases hpath : o.pathRc = 0
      · rw [if_neg (not_not_intro hpath)]
        by_cases hexec : o.execRc = 0
        · simp only [if_pos hexec]
          by_cases hflush : o.flushRc = 0
          · rw [if_neg (not_not_intro hflush)]
            cases hfound : o.found with
            | true => exact iff_of_true (by decide) (by simp [hflush])
            | false =>
              -- the buffers are freed a second time
              exact iff_of_false (by decide)
                (not_not_intro ⟨hbuf, hk, hpath, hexec, .inr rfl⟩)
          · -- the buffers are not freed
            rw [if_pos hflush]
            exact iff_of_false (by dsimp only; decide)
              (not_not_intro ⟨hbuf, hk, hpath, hexec, .inl hflush⟩)
        · simp only [if_neg hexec]
          exact iff_of_true (by decide) fun h => hexec h.2.2.2.1
      · rw [if_pos hpath]
        exact iff_of_true (by dsimp only; decide) fun h => hpath h.2.2.1
    · rw [if_pos ((kmalloc_test o.kmalloc).2 hk)]
      exact iff_of_true (released_kmalloc o.kmalloc) fun h => hk h.2.1
  · rw [if_pos hbuf]
    exact iff_of_true (by decide) fun h => hbuf h.1

/-- The program is started, and there is no entry for the new process. -/
theorem not_buffersReleased_noEntry :
    ¬ BuffersReleased (loadLxexeBinary ⟨(0x4d, 0x5a), fun _ => true, 0, 0, 0, 7, []⟩).2 := by
  decide

/-! ### The entry of the new process -/

/-- The entry of the new process is found after `LX_set_ti_for_pidtid` if there was one before, or
memory for it. -/
theorem found_of_set (o : ExeOutcome) (ti : ULONG) (pp : Bool) (root : List UtlStack)
    (h : o.utl = (setTiForPidtid ti ⟨o.codeTerminate.setWidth 16, 1⟩ pp root).1) :
    o.found = false ↔ pp = false ∧
      ∀ e ∈ root, e.thread ≠ ⟨o.codeTerminate.setWidth 16, 1⟩ := by
  rw [ExeOutcome.found, Option.isSome_eq_false_iff, Option.isNone_iff_eq_none, h,
    ← UtlList.findUtlstackPidtid_eq_none]
  unfold setTiForPidtid
  cases pp with
  | false => simp
  | true =>
    cases hfind : findUtlstackPidtid ⟨o.codeTerminate.setWidth 16, 1⟩ root with
    | none => simp [findUtlstackPidtid]
    | some e =>
      have hne : findUtlstackPidtid ⟨o.codeTerminate.setWidth 16, 1⟩ root ≠ none := by
        rw [hfind]
        exact Option.some_ne_none e
      exact iff_of_false hne fun h => Option.some_ne_none e h.2

end LxApi32
