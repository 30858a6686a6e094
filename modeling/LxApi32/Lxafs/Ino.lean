import LxApi32.Lxafs.ReadDir

/-!
# The numbers of inodes

`get_new_ino` numbers the inodes in the order in which they are made.  Its counter starts with `3`
and is set to `3` again when it has come to `0`, so that `0`, `1` and the number of the root are
left out.  `LXAFS_INO_UNDEFINED` is not: it comes right before `0`.

* `newInoAt k` : the number that call `k` returns; `newInoAt_toNat` gives it in closed form.
* `repeats_late` : between two calls that return the same number, all other numbers are returned.
* `newInoOk_iff` : which calls return a number that an inode may have.
-/

namespace LxApi32

/-- `ROOT_I` -/
def rootI : ULONG := 2

/-- `get_new_ino`: the number that it returns, and `g_ino` after the call. -/
def getNewIno (gIno : ULONG) : ULONG × ULONG :=
  let ino := gIno
  let gIno := gIno + 1
  (ino, if gIno = 0 then 3 else gIno)

/-- `g_ino` after `k` calls. -/
def gInoAt : ℕ → ULONG
  | 0 => 3
  | k + 1 => (getNewIno (gInoAt k)).2

/-- What call `k` returns; the first call is call `0`. -/
def newInoAt (k : ℕ) : ULONG := (getNewIno (gInoAt k)).1

/-- The numbers that have a meaning of their own. -/
def reservedInos : List ULONG := [lxafsInoUnknown, 1, rootI, lxafsInoUndefined]

/-- Call `k` returns a number that an inode may have, and if an earlier call has returned it, all
others have been returned since then. -/
structure NewInoOk (k : ℕ) : Prop where
  notReserved : newInoAt k ∉ reservedInos
  repeats : ∀ j < k, newInoAt j = newInoAt k → ∀ ino ∉ reservedInos,
    ∃ i, j ≤ i ∧ i < k ∧ newInoAt i = ino

/-- The number of different numbers. -/
abbrev inoPeriod : ℕ := 2 ^ 32 - 3

theorem notMem_reservedInos_iff (ino : ULONG) :
    ino ∉ reservedInos ↔ 3 ≤ ino.toNat ∧ ino.toNat < 2 ^ 32 - 1 := by
  have hlt := ino.isLt
  have h0 : lxafsInoUnknown.toNat = 0 := rfl
  have h1 : (1 : ULONG).toNat = 1 := rfl
  have h2 : rootI.toNat = 2 := rfl
  have hu : lxafsInoUndefined.toNat = 2 ^ 32 - 1 := rfl
  simp only [reservedInos, List.mem_cons, List.not_mem_nil, or_false, not_or, ← BitVec.toNat_inj,
    h0, h1, h2, hu]
  omega

/-! ### The counter -/

/-- The counter goes round in the numbers from `3` on. -/
theorem getNewIno_snd_toNat {gIno : ULONG} (h : 3 ≤ gIno.toNat) :
    (getNewIno gIno).2.toNat = 3 + (gIno.toNat - 3 + 1) % inoPeriod := by
  have hlt := gIno.isLt
  have hadd : (gIno + 1).toNat = (gIno.toNat + 1) % 2 ^ 32 := BitVec.toNat_add gIno 1
  have h3 : (3 : ULONG).toNat = 3 := rfl
  have h0 : gIno + 1 = 0 ↔ gIno.toNat + 1 = 2 ^ 32 := by
    have hz : (0 : ULONG).toNat = 0 := rfl
    rw [← BitVec.toNat_inj, hadd, hz]
    omega
  unfold getNewIno inoPeriod
  simp only [h0]
  split_ifs with hwrap
  · rw [h3]
    omega
  · rw [hadd]
    omega

theorem gInoAt_toNat (k : ℕ) : (gInoAt k).toNat = 3 + k % inoPeriod := by
  induction k with
  | zero => rfl
  | succ k ih =>
    have hle : 3 ≤ (gInoAt k).toNat := by omega
    rw [gInoAt, getNewIno_snd_toNat hle, ih]
    simp only [inoPeriod]
    omega

/-- Call `k` returns `3 + k % (2 ^ 32 - 3)`. -/
theorem newInoAt_toNat (k : ℕ) : (newInoAt k).toNat = 3 + k % inoPeriod := gInoAt_toNat k

theorem newInoAt_inj {j k : ℕ} : newInoAt j = newInoAt k ↔ j % inoPeriod = k % inoPeriod := by
  rw [← BitVec.toNat_inj, newInoAt_toNat, newInoAt_toNat, Nat.add_left_cancel_iff]

/-! ### What is returned -/

theorem newInoAt_notMem_iff (k : ℕ) :
    newInoAt k ∉ reservedInos ↔ k % inoPeriod ≠ inoPeriod - 1 := by
  rw [notMem_reservedInos_iff, newInoAt_toNat]
  simp only [inoPeriod]
  omega

/-- A number is repeated when all others have been returned. -/
theorem repeats_late {j k : ℕ} (hjk : j < k) (heq : newInoAt j = newInoAt k) {ino : ULONG}
    (hino : ino ∉ reservedInos) : ∃ i, j ≤ i ∧ i < k ∧ newInoAt i = ino := by
  rw [newInoAt_inj] at heq
  rw [notMem_reservedInos_iff] at hino
  -- the first call from `j` on with the right remainder
  refine ⟨j + (ino.toNat - 3 + inoPeriod - j % inoPeriod) % inoPeriod, Nat.le_add_right .., ?_, ?_⟩
  · simp only [inoPeriod] at heq ⊢
    omega
  · rw [← BitVec.toNat_inj, newInoAt_toNat]
    simp only [inoPeriod]
    omega

/-- **Which numbers are good**: all but the last one of each round, which is
`LXAFS_INO_UNDEFINED`. -/
theorem newInoOk_iff (k : ℕ) : NewInoOk k ↔ k % inoPeriod ≠ inoPeriod - 1 := by
  rw [← newInoAt_notMem_iff]
  constructor
  · exact NewInoOk.notReserved
  · intro hk
    exact ⟨hk, fun j hjk heq ino hino => repeats_late hjk heq hino⟩

/-- The call before the counter wraps. -/
theorem newInoAt_undefined :
    newInoAt (2 ^ 32 - 4) = lxafsInoUndefined ∧ ¬ NewInoOk (2 ^ 32 - 4) := by
  have hval : newInoAt (2 ^ 32 - 4) = lxafsInoUndefined := by
    rw [← BitVec.toNat_inj, newInoAt_toNat]
    rfl
  refine ⟨hval, fun h => h.notReserved ?_⟩
  rw [hval]
  exact List.mem_of_mem_getLast? rfl

/-- A good number that `fod_readdir` has found is not looked up again. -/
theorem DirFile.findIno_of_newIno {k : ℕ} (hk : k % inoPeriod ≠ inoPeriod - 1) (d : DirInodes)
    (c : ReaddirCall) (f : DirFile) (dent : LxafsDirent) :
    f.findIno d c (dent.withIno (newInoAt k)) = .ok (newInoAt k) := by
  have hne : newInoAt k ≠ lxafsInoUndefined := by
    intro heq
    apply (newInoAt_notMem_iff k).2 hk
    rw [heq]
    exact List.mem_of_mem_getLast? rfl
  have hino : (dent.withIno (newInoAt k)).ino = newInoAt k := rfl
  simp only [findIno, hino, hne, false_and, ↓reduceIte]

end LxApi32
