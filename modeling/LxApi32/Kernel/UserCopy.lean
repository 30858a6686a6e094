import LxApi32.Daemon.Packet
import LxApi32.Lib.CString

/-!
# Access to the memory of programs

The functions of `oal_usercopy.c` lock the memory of a program, copy or clear, and unlock it.  Their
callers take the result of a copy for the number of bytes that have not been copied, and a negative
result of `strncpy_from_user` for an error.

The functions do not return what has happened: two return the size and three return 0 whether the
memory could be locked or not, and `strncpy_from_user` returns 0 if it could not.

* `UserAccess.reports_iff` : for each of them, when its result tells what it has done.
* `strncpyLoop_spec` : what the loop of `strncpy_from_user` copies and counts.

`to` and `from` are `dst` and `src` here.  The source of a copy is given by its bytes from the first
one on; it and the target do not overlap.
-/

namespace LxApi32

/-- `-EFAULT` as a `ULONG`. -/
def negEFAULT : ULONG := -14

/-- `VMDHL_WRITE` -/
def vmdhlWrite : ULONG := 0x0008

/-- `VMDHL_LONG` -/
def vmdhlLong : ULONG := 0x0010

/-- Which calls of `DevVMLock` succeed, by their flags, address and size. -/
abbrev VmLock := ULONG → ULONG → ULONG → Bool

/-- What a function has done. -/
structure CopyRun where
  /-- What it returns. -/
  ret : ULONG
  /-- What it has stored at the target, from the first byte on. -/
  stored : Bytes
  deriving DecidableEq, Repr

/-- The first bytes of a source. -/
def firstBytes (source : ℕ → UInt8) (n : ULONG) : Bytes := (List.range n.toNat).map source

/-- A function that stores bytes if `DevVMLock` succeeds, and returns `ret` in any case. -/
def copyLocked (ret : ULONG) (locked : Bool) (bytes : Bytes) : CopyRun :=
  ⟨ret, if locked then bytes else []⟩

/-- `clear_user` -/
def clearUser (vm : VmLock) (dst n : ULONG) : CopyRun :=
  copyLocked n (vm (vmdhlWrite ||| vmdhlLong) dst n) (List.replicate n.toNat 0)

/-- `__copy_to_user_ll` -/
def copyToUserLl (vm : VmLock) (dst : ULONG) (source : ℕ → UInt8) (n : ULONG) : CopyRun :=
  copyLocked 0 (vm (vmdhlWrite ||| vmdhlLong) dst n) (firstBytes source n)

/-- `__copy_from_user_ll` -/
def copyFromUserLl (vm : VmLock) (src : ULONG) (source : ℕ → UInt8) (n : ULONG) : CopyRun :=
  copyLocked n (vm vmdhlLong src n) (firstBytes source n)

/-- `copy_to_user` -/
def copyToUser (vm : VmLock) (dst src : ULONG) (source : ℕ → UInt8) (n : ULONG) : CopyRun :=
  if dst = 0 ∨ src = 0 then ⟨negEFAULT, []⟩
  else if n = 0 then ⟨0, []⟩
  else copyLocked 0 (vm (vmdhlWrite ||| vmdhlLong) dst n) (firstBytes source n)

/-- `copy_from_user` -/
def copyFromUser (vm : VmLock) (dst src : ULONG) (source : ℕ → UInt8) (n : ULONG) : CopyRun :=
  if dst = 0 ∨ src = 0 then ⟨negEFAULT, []⟩
  else if n = 0 then ⟨0, []⟩
  else copyLocked 0 (vm vmdhlLong src n) (firstBytes source n)

/-- The loop of `__do_strncpy_from_user` from the `i`-th byte on, with what `ecx` has: the bytes
that it stores, and what `ecx` has at the end.  It begins with `testl` and ends with `decl`, so it
stops where `ecx` is 0. -/
def strncpyLoop (source : ℕ → UInt8) (i : ℕ) : ℕ → Bytes × ℕ
  | 0 => ([], 0)
  | ecx + 1 =>
    if source i = 0 then ([0], ecx + 1)
    else
      let rest := strncpyLoop source (i + 1) ecx
      (source i :: rest.1, rest.2)

/-- `strncpy_from_user`, which locks one byte of the string. -/
def strncpyFromUser (vm : VmLock) (src : ULONG) (source : ℕ → UInt8) (count : ULONG) : CopyRun :=
  if vm vmdhlLong src 1 then
    let r := strncpyLoop source 0 count.toNat
    ⟨count - BitVec.ofNat 32 r.2, r.1⟩
  else ⟨0, []⟩

/-- A call of one of the functions. -/
inductive UserAccess
  | clearUser (dst n : ULONG)
  | copyToUserLl (dst : ULONG) (source : ℕ → UInt8) (n : ULONG)
  | copyFromUserLl (src : ULONG) (source : ℕ → UInt8) (n : ULONG)
  | copyToUser (dst src : ULONG) (source : ℕ → UInt8) (n : ULONG)
  | copyFromUser (dst src : ULONG) (source : ℕ → UInt8) (n : ULONG)
  | strncpyFromUser (src : ULONG) (source : ℕ → UInt8) (count : ULONG)

/-- The result is the number of the bytes that have not been stored; the others are right. -/
structure CopyRun.Counts (run : CopyRun) (bytes : Bytes) : Prop where
  /-- Nothing else has been stored. -/
  stored : run.stored <+: bytes
  /-- The bytes that are missing are counted. -/
  ret : run.ret.toNat + run.stored.length = bytes.length

namespace UserAccess

/-- The function does it. -/
def run (vm : VmLock) : UserAccess → CopyRun
  | clearUser dst n => LxApi32.clearUser vm dst n
  | copyToUserLl dst source n => LxApi32.copyToUserLl vm dst source n
  | copyFromUserLl src source n => LxApi32.copyFromUserLl vm src source n
  | copyToUser dst src source n => LxApi32.copyToUser vm dst src source n
  | copyFromUser dst src source n => LxApi32.copyFromUser vm dst src source n
  | strncpyFromUser src source count => LxApi32.strncpyFromUser vm src source count

/-- The memory of the program can be locked. -/
def Locked (vm : VmLock) : UserAccess → Prop
  | clearUser dst n | copyToUserLl dst _ n | copyToUser dst _ _ n =>
    vm (vmdhlWrite ||| vmdhlLong) dst n = true
  | copyFromUserLl src _ n | copyFromUser _ src _ n => vm vmdhlLong src n = true
  | strncpyFromUser src _ _ => vm vmdhlLong src 1 = true

/-- The function returns what its callers expect: the number of the bytes that have not been stored,
or for `strncpy_from_user` the length of the string; a negative number if it cannot be locked. -/
def Reports (vm : VmLock) (a : UserAccess) : Prop :=
  match a with
  | clearUser _ n => (a.run vm).Counts (List.replicate n.toNat 0)
  | copyToUserLl _ source n | copyFromUserLl _ source n | copyToUser _ _ source n
  | copyFromUser _ _ source n => (a.run vm).Counts (firstBytes source n)
  | strncpyFromUser _ source count =>
    (¬ a.Locked vm → (a.run vm).ret.toInt < 0) ∧
      (a.Locked vm → (a.run vm).ret.toNat = CString.strlen (firstBytes source count) ∧
        (a.run vm).stored =
          (CString.str (firstBytes source count) ++ [0]).take count.toNat)

/-- When it does. -/
def Honest (vm : VmLock) (a : UserAccess) : Prop :=
  match a with
  | clearUser _ n | copyFromUserLl _ _ n => ¬ a.Locked vm ∨ n = 0
  | copyToUserLl _ _ n => a.Locked vm ∨ n = 0
  | copyToUser dst src _ n | copyFromUser dst src _ n =>
    if dst = 0 ∨ src = 0 then n = negEFAULT else a.Locked vm ∨ n = 0
  | strncpyFromUser .. => a.Locked vm

end UserAccess

variable {source : ℕ → UInt8} {n ret : ULONG} {bytes : Bytes} {locked : Bool}

@[simp]
theorem length_firstBytes (source : ℕ → UInt8) (n : ULONG) :
    (firstBytes source n).length = n.toNat := by
  simp [firstBytes]

/-! ### Copies -/

/-- A function that returns 0 counts if it locks, or has nothing to do. -/
theorem counts_zero_iff (locked : Bool) (hlen : bytes.length = n.toNat) :
    (copyLocked 0 locked bytes).Counts bytes ↔ locked = true ∨ n = 0 := by
  constructor
  · intro h
    have hret := h.ret
    cases locked with
    | true => exact .inl rfl
    | false =>
      refine .inr (BitVec.eq_of_toNat_eq ?_)
      simp [copyLocked] at hret
      rw [← hlen, ← hret]
      rfl
  · rintro (rfl | rfl)
    · exact ⟨List.prefix_refl _, by simp [copyLocked]⟩
    · have hnil : bytes = [] := List.length_eq_zero_iff.1 hlen
      subst hnil
      cases locked <;> exact ⟨List.prefix_refl _, rfl⟩

/-- A function that returns the size counts if it does not lock, or has nothing to do. -/
theorem counts_size_iff (locked : Bool) (hlen : bytes.length = n.toNat) :
    (copyLocked n locked bytes).Counts bytes ↔ ¬ locked = true ∨ n = 0 := by
  constructor
  · intro h
    have hret := h.ret
    cases locked with
    | false => exact .inl nofun
    | true =>
      refine .inr (BitVec.eq_of_toNat_eq ?_)
      simpa [copyLocked] using hret
  · rintro (h | rfl)
    · obtain rfl := Bool.eq_false_iff.2 h
      exact ⟨List.nil_prefix, hlen.symm⟩
    · have hnil : bytes = [] := List.length_eq_zero_iff.1 hlen
      subst hnil
      cases locked <;> exact ⟨List.prefix_refl _, rfl⟩

/-- A function that returns an error and stores nothing counts if the error is the size. -/
theorem counts_error_iff (hlen : bytes.length = n.toNat) :
    (⟨ret, []⟩ : CopyRun).Counts bytes ↔ n = ret := by
  constructor
  · intro h
    exact BitVec.eq_of_toNat_eq (hlen.symm.trans h.ret.symm)
  · rintro rfl
    exact ⟨List.nil_prefix, hlen.symm⟩

/-- `copy_to_user` and `copy_from_user`. -/
theorem counts_checked_iff {null : Prop} [Decidable null] (locked : Bool)
    (hlen : bytes.length = n.toNat) :
    (if null then ⟨negEFAULT, []⟩ else if n = 0 then ⟨0, []⟩
      else copyLocked 0 locked bytes : CopyRun).Counts bytes ↔
      if null then n = negEFAULT else locked = true ∨ n = 0 := by
  split_ifs with hnull hn
  · exact counts_error_iff hlen
  · exact iff_of_true ((counts_error_iff hlen).2 hn) (.inr hn)
  · exact counts_zero_iff locked hlen

/-! ### Strings -/

/-- **The loop** stores the string and its end, as far as there is room, and counts down by the
length of the string. -/
theorem strncpyLoop_spec (source : ℕ → UInt8) (i ecx : ℕ) :
    (strncpyLoop source i ecx).1 =
      (CString.str ((List.range' i ecx).map source) ++ [0]).take ecx ∧
    (strncpyLoop source i ecx).2 + CString.strlen ((List.range' i ecx).map source) = ecx := by
  induction ecx generalizing i with
  | zero => exact ⟨rfl, rfl⟩
  | succ ecx ih =>
    obtain ⟨hstored, hecx⟩ := ih (i + 1)
    rw [List.range'_succ, List.map_cons]
    unfold strncpyLoop
    by_cases hzero : source i = 0
    · simp [hzero, CString.strlen]
    · have hstr (t : Bytes) : CString.str (source i :: t) = source i :: CString.str t :=
        List.takeWhile_cons_of_pos (bne_iff_ne.2 hzero)
      rw [if_neg hzero]
      dsimp only
      refine ⟨?_, ?_⟩
      · rw [hstored, hstr, List.cons_append, List.take_succ_cons]
      · rw [CString.strlen] at hecx ⊢
        rw [hstr, List.length_cons]
        omega

/-- `strncpy_from_user` counts the string. -/
theorem toNat_strncpy_ret (source : ℕ → UInt8) (count : ULONG) :
    (count - BitVec.ofNat 32 (strncpyLoop source 0 count.toNat).2).toNat =
      CString.strlen (firstBytes source count) := by
  have hecx := (strncpyLoop_spec source 0 count.toNat).2
  rw [← List.range_eq_range'] at hecx
  change _ + CString.strlen (firstBytes source count) = _ at hecx
  have hlt := count.isLt
  rw [BitVec.toNat_sub, BitVec.toNat_ofNat]
  omega

namespace UserAccess

variable {vm : VmLock}

/-- **Results tell what has been done** exactly in these cases. -/
theorem reports_iff (vm : VmLock) (a : UserAccess) : a.Reports vm ↔ a.Honest vm := by
  cases a with
  | clearUser dst n => exact counts_size_iff _ (List.length_replicate ..)
  | copyToUserLl dst source n => exact counts_zero_iff _ (length_firstBytes source n)
  | copyFromUserLl src source n => exact counts_size_iff _ (length_firstBytes source n)
  | copyToUser dst src source n => exact counts_checked_iff _ (length_firstBytes source n)
  | copyFromUser dst src source n => exact counts_checked_iff _ (length_firstBytes source n)
  | strncpyFromUser src source count =>
    by_cases hlocked : vm vmdhlLong src 1 = true
    · refine iff_of_true ⟨fun h => absurd hlocked h, fun _ => ?_⟩ hlocked
      have hstored := (strncpyLoop_spec source 0 count.toNat).1
      rw [← List.range_eq_range'] at hstored
      simp only [run, LxApi32.strncpyFromUser, if_pos hlocked]
      exact ⟨toNat_strncpy_ret source count, hstored⟩
    · refine iff_of_false (fun h => ?_) hlocked
      have hneg := h.1 hlocked
      simp only [run, LxApi32.strncpyFromUser, if_neg hlocked] at hneg
      exact absurd hneg (by decide)

/-- A byte cannot be copied, and `copy_to_user` returns 0. -/
theorem not_reports_copyToUser :
    ¬ (copyToUser 0x10000 0x20000 (fun _ => 1) 1).Reports fun _ _ _ => false := by
  intro h
  exact absurd h.ret (by decide)

end UserAccess

end LxApi32
