import LxApi32.Daemon.Packet
import LxApi32.Kernel.Errno
import LxApi32.Lxafs.Path

/-!
# Opening a directory

`lxafs_reopen_dir` asks for the number of entries of a directory, allocates as many entries, fills
them with what the host delivers, as long as it delivers any, and sorts them by name: whenever an
entry is above a later one, the two are exchanged, and the sorting begins again.  But it compares an
entry with itself.

* `sortOuter_eq` : the loops end and leave the entries as they are.
* `reopenDir_sorted_iff` : what is opened is a sorted and complete snapshot exactly if the host
  delivers as many entries as it has counted, and delivers them in order.

What a call has allocated and does not keep is freed and not part of the state.
-/

namespace LxApi32

open CString

/-- `FILEFINDBUF4` -/
structure FindBuf where
  /-- `achName` -/
  achName : Bytes
  /-- `attrFile` -/
  attrFile : ULONG
  /-- The name is a string. -/
  noNul : NoNul achName

/-- `type` of an entry. -/
inductive DirentType
  /-- `DT_DIR` -/
  | dir
  /-- `DT_REG` -/
  | reg
  deriving DecidableEq, Repr

/-- A pointer into `fullname` of an entry. -/
structure DirentPtr where
  /-- The entry. -/
  slot : ℕ
  /-- The byte in `fullname`. -/
  offset : ℕ
  deriving DecidableEq, Repr

/-- `struct lxafs_dirent` -/
structure LxafsDirent where
  /-- `ino` -/
  ino : ULONG
  /-- `type` -/
  type : DirentType
  /-- `fullname` -/
  fullname : Bytes
  /-- `xname` -/
  xname : DirentPtr
  /-- `name` -/
  name : DirentPtr
  deriving DecidableEq, Repr

/-- The memory for the entries; `none` has not been written. -/
abbrev Dirents := List (Option LxafsDirent)

/-- `sizeof(struct lxafs_dirent)` -/
def sizeofDirent : ULONG := 276

/-- `LXAFS_INO_UNDEFINED` -/
def lxafsInoUndefined : ULONG := -1

/-- `FILE_DIRECTORY` -/
def fileDirectory : ULONG := 0x10

/-- The type of the entry for a file or a directory. -/
def FindBuf.direntType (pfb : FindBuf) : DirentType :=
  if pfb.attrFile &&& fileDirectory ≠ 0 then .dir else .reg

namespace Dirents

/-- `dirents[i]`, if it has been written. -/
def entry (ents : Dirents) (i : ℕ) : Option LxafsDirent := ents[i]?.join

/-- The bytes from a pointer on. -/
def deref (ents : Dirents) (p : DirentPtr) : Bytes :=
  match ents.entry p.slot with
  | some d => d.fullname.drop p.offset
  | none => []

/-- The three calls of `memcpy` that exchange two entries. -/
def swap (ents : Dirents) (i j : ℕ) : Dirents :=
  (ents.set i (ents.entry j)).set j (ents.entry i)

end Dirents

theorem succ_sub_lt {n j : ULONG} (h : j < n) : n.toNat - (j + 1).toNat < n.toNat - j.toNat := by
  have := BitVec.lt_def.1 h
  have := n.isLt
  rw [BitVec.toNat_add]
  show n.toNat - (j.toNat + 1) % 2 ^ 32 < _
  omega

/-- The inner loop of the sorting, from `j` on: `i` behind it, and the entries.  There is no result
if it uses an entry that has not been written. -/
def sortInner (numEnts i j : ULONG) (ents : Dirents) : Option (ULONG × Dirents) :=
  if _ : j < numEnts then
    match ents.entry i.toNat with
    | none => none
    | some d =>
      -- both arguments are the name of the entry `i`
      if hgt : 0 < strncmp (ents.deref d.xname) (ents.deref d.xname) lxMaxpath then
        sortInner numEnts 0 1 (ents.swap i.toNat j.toNat)
      else sortInner numEnts i (j + 1) ents
  else some (i, ents)
termination_by numEnts.toNat - j.toNat
decreasing_by
  · exact absurd hgt (not_strncmp_self_pos _ _)
  · exact succ_sub_lt ‹_›

/-- The inner loop leaves everything as it is. -/
theorem sortInner_some {numEnts i j i' : ULONG} {ents ents' : Dirents}
    (h : sortInner numEnts i j ents = some (i', ents')) : i' = i ∧ ents' = ents := by
  fun_induction sortInner numEnts i j ents with
  | case1 => cases h
  | case2 i j ents hj d hd hgt =>
    exact absurd hgt (not_strncmp_self_pos _ _)
  | case3 i j ents hj d hd hgt ih => exact ih h
  | case4 i j ents hj =>
    cases h
    exact ⟨rfl, rfl⟩

/-- The outer loop of the sorting, from `i` on.  For no entries, its bound is the largest number,
and `i` is taken to wrap around on the way there. -/
def sortOuter (numEnts i : ULONG) (ents : Dirents) : Option Dirents :=
  if _ : i < numEnts - 1 then
    match hin : sortInner numEnts i (i + 1) ents with
    | none => none
    | some (i', ents') => sortOuter numEnts (i' + 1) ents'
  else some ents
termination_by (numEnts - 1).toNat - i.toNat
decreasing_by
  obtain ⟨rfl, -⟩ := sortInner_some hin
  exact succ_sub_lt ‹_›

/-- The inner loop ends if the entry is filled. -/
theorem sortInner_eq {numEnts i j : ULONG} {ents : Dirents} {d : LxafsDirent}
    (hd : ents.entry i.toNat = some d) : sortInner numEnts i j ents = some (i, ents) := by
  fun_induction sortInner numEnts i j ents with
  | case1 i j ents hj hnone => cases hnone.symm.trans hd
  | case2 i j ents hj d' hd' hgt =>
    exact absurd hgt (not_strncmp_self_pos _ _)
  | case3 i j ents hj d' hd' hgt ih => exact ih hd
  | case4 => rfl

/-- The sorting leaves the entries as they are. -/
theorem sortOuter_some {numEnts i : ULONG} {ents ents' : Dirents}
    (h : sortOuter numEnts i ents = some ents') : ents' = ents := by
  fun_induction sortOuter numEnts i ents with
  | case1 => cases h
  | case2 i ents hi i' ents₁ hin ih =>
    obtain ⟨rfl, rfl⟩ := sortInner_some hin
    exact ih h
  | case3 =>
    cases h
    rfl

/-- The loops end if all the entries are filled. -/
theorem sortOuter_eq {numEnts : ULONG} {ents : Dirents}
    (hfull : ∀ k < numEnts.toNat, ∃ d, ents.entry k = some d) (i : ULONG) :
    sortOuter numEnts i ents = some ents := by
  fun_induction sortOuter numEnts i ents with
  | case1 i ents hi hin =>
    by_cases hlt : i.toNat < numEnts.toNat
    · obtain ⟨d, hd⟩ := hfull i.toNat hlt
      cases (sortInner_eq hd).symm.trans hin
    · -- only without any entry: the bound of the outer loop is then the largest number
      rw [sortInner, dif_neg] at hin
      · cases hin
      · rw [BitVec.lt_def] at hi ⊢
        rw [BitVec.toNat_add]
        rw [BitVec.toNat_sub] at hi
        simp only [BitVec.reduceToNat] at hi ⊢
        omega
  | case2 i ents hi i' ents₁ hin ih =>
    obtain ⟨rfl, rfl⟩ := sortInner_some hin
    exact ih hfull
  | case3 => rfl

/-- What the calls of `lxafs_reopen_dir` answer. -/
structure ReopenAnswers where
  /-- `lxafs_get_fullfileinfo`: the number of files and of directories. -/
  fileinfo : Option (ULONG × ULONG)
  /-- `kmalloc` has memory for `dirinfo`. -/
  dirinfo : Bool
  /-- `kmalloc` has memory for `dirents`. -/
  dirents : Bool
  /-- `kmalloc` has memory for `pfb`. -/
  pfb : Bool
  /-- `LX_alloc_objects` succeeds. -/
  objects : Bool
  /-- If `LX_DOSFINDFIRST` succeeds, what it and `LX_DOSFINDNEXT` deliver, until that fails or says
  that it has delivered nothing. -/
  found : Option (List FindBuf)

/-- A directory and its super block. -/
structure OpenedDir where
  /-- `linkinfo.name` of the inode -/
  dirname : PathName
  /-- `rootpath` of the super block -/
  rootpath : PathName
  deriving DecidableEq

/-- What `lxafs_reopen_dir` uses of a file and of its `struct lxafs_filep_priv_d`. -/
structure DirFile where
  /-- `f_pos` -/
  fPos : ℕ
  /-- `num_ents` -/
  numEnts : ULONG
  /-- `dirents` -/
  dirents : Option Dirents
  deriving DecidableEq

namespace OpenedDir

/-- `fspec` before the names of the entries are put behind it. -/
def fspec (o : OpenedDir) : Bytes := strcat (strncpy [] o.dirname.chars lxMaxpath) [slash]

/-- The path of an entry. -/
def path (o : OpenedDir) (pfb : FindBuf) : Bytes := str o.fspec ++ pfb.achName

/-- What is written to `dirents[i]`. -/
def dirent (o : OpenedDir) (i : ℕ) (pfb : FindBuf) : LxafsDirent where
  ino := lxafsInoUndefined
  type := pfb.direntType
  fullname := strncpy [] (o.path pfb) lxMaxpath
  xname := ⟨i, strlen o.rootpath.chars⟩
  name := ⟨i, strlen (strncpy [] (o.path pfb) lxMaxpath) - strlen pfb.achName⟩

/-- The loop that fills the entries from the `i`-th one on.  There is no result if it writes past
the end of `fspec` or of `dirents`. -/
def fill (o : OpenedDir) (numEnts : ULONG) : ℕ → List FindBuf → Dirents → Option Dirents
  | _, [], ents => some ents
  | i, pfb :: found, ents =>
    if i < numEnts.toNat then
      if lxMaxpath < (o.path pfb).length + 1 ∨ ents.length ≤ i then none
      else fill o numEnts (i + 1) found (ents.set i (some (o.dirent i pfb)))
    else some ents

theorem take_cons_sub {numEnts i : ℕ} (pfb : FindBuf) (found : List FindBuf) (h : i < numEnts) :
    (pfb :: found).take (numEnts - i) = pfb :: found.take (numEnts - (i + 1)) := by
  rw [← Nat.sub_sub, ← List.take_succ_cons, Nat.sub_add_cancel (Nat.sub_pos_of_lt h)]

/-- What the loop leaves: the first entries are those that have been delivered, the others are
as before. -/
theorem fill_eq_some {o : OpenedDir} {numEnts : ULONG} {i : ℕ} {found : List FindBuf}
    {ents ents' : Dirents} (hi : i ≤ ents.length) :
    fill o numEnts i found ents = some ents' ↔
      (∀ pfb ∈ found.take (numEnts.toNat - i), (o.path pfb).length < lxMaxpath) ∧
      i + (found.take (numEnts.toNat - i)).length ≤ ents.length ∧
      ents' = ents.take i ++
        (found.take (numEnts.toNat - i)).mapIdx (fun k pfb => some (o.dirent (i + k) pfb)) ++
        ents.drop (i + (found.take (numEnts.toNat - i)).length) := by
  fun_induction fill o numEnts i found ents with
  | case1 i ents => simp [hi, eq_comm]
  | case2 i pfb found ents hlt hbad =>
    rw [take_cons_sub pfb found hlt]
    refine iff_of_false nofun fun ⟨hfits, hlen, _⟩ => ?_
    have hfit := hfits pfb List.mem_cons_self
    rw [List.length_cons] at hlen
    omega
  | case3 i pfb found ents hlt hbad ih =>
    have hroom : (o.path pfb).length < lxMaxpath ∧ i < ents.length := by omega
    have hset : (ents.set i (some (o.dirent i pfb))).take (i + 1) =
        ents.take i ++ [some (o.dirent i pfb)] := by
      rw [List.take_set, List.take_succ_eq_append_getElem hroom.2, List.set_append_right]
      · simp [Nat.min_eq_left hi]
      · simp
    rw [ih (by rw [List.length_set]; omega), take_cons_sub pfb found hlt, hset, List.mapIdx_cons,
      List.forall_mem_cons, List.length_set, List.length_cons, List.drop_set_of_lt (by omega)]
    simp only [hroom.1, true_and, List.append_assoc, List.cons_append, List.nil_append,
      Nat.add_assoc, Nat.add_comm 1, Nat.add_zero]
  | case4 i pfb found ents hlt =>
    have htake : (pfb :: found).take (numEnts.toNat - i) = [] := by
      rw [Nat.sub_eq_zero_of_le (by omega), List.take_zero]
    simp [htake, hi, eq_comm]

/-- The number of entries in the memory that is allocated for `n`. -/
def slots (n : ULONG) : ℕ := (sizeofDirent * n).toNat / sizeofDirent.toNat

/-- `lxafs_reopen_dir`.  There is no result if it writes past the end of its buffers; the pattern
for `LX_DOSFINDFIRST` stands before `fspec`, which is written over what does not fit there. -/
def reopenDir (o : OpenedDir) (ans : ReopenAnswers) (f : DirFile) : Option (ℤ × DirFile) :=
  match ans.fileinfo with
  | none => some (-errENOMEM, f)
  | some (numFiles, numSubdirs) =>
    let f := { f with numEnts := numFiles + numSubdirs }
    if ¬ (ans.dirinfo ∧ ans.dirents ∧ ans.pfb) then some (-errENOMEM, f)
    else if ¬ ans.objects then some (-errENOMEM, f)
    else if lxMaxpath < o.fspec.length then none
    else match ans.found with
      | none => some (-errENOENT, f)
      | some found =>
        let dirents := List.replicate (slots f.numEnts) none
        (fill o f.numEnts 0 found dirents).bind fun dirents =>
          (sortOuter f.numEnts 0 dirents).map fun dirents =>
            (0, { f with dirents := some dirents, fPos := 0 })

/-! ### The snapshot -/

/-- A sorted and complete snapshot of what has been delivered, up to the counted number. -/
def Snapshot (o : OpenedDir) (found : List FindBuf) (f : DirFile) : Prop :=
  ∃ (ents : Dirents) (es : List LxafsDirent), f.dirents = some ents ∧
    ents.take f.numEnts.toNat = es.map some ∧ es.length = f.numEnts.toNat ∧
    (es.map fun d => (str d.fullname, str (ents.deref d.name), d.type)).Perm
      ((found.take f.numEnts.toNat).map fun pfb => (o.path pfb, pfb.achName, pfb.direntType)) ∧
    es.Pairwise fun d d' => strncmp (ents.deref d.xname) (ents.deref d'.xname) lxMaxpath ≤ 0

/-- If `lxafs_reopen_dir` returns 0, the file has a snapshot of the directory. -/
def OpensSorted (o : OpenedDir) (ans : ReopenAnswers) (f : DirFile) : Prop :=
  ∃ r, reopenDir o ans f = some r ∧
    (r.1 = 0 → ∃ found, ans.found = some found ∧ Snapshot o found r.2)

/-- The name of an entry that the sorting is to compare. -/
def xname (o : OpenedDir) (pfb : FindBuf) : Bytes := (o.path pfb).drop (strlen o.rootpath.chars)

/-- The host delivers at least as many entries as it has counted, the paths and the entries fit
their memory, and the entries come in order. -/
structure InOrder (o : OpenedDir) (numEnts : ULONG) (found : List FindBuf) : Prop where
  complete : numEnts.toNat ≤ found.length
  memory : sizeofDirent.toNat * numEnts.toNat < 2 ^ 32
  fits : ∀ pfb ∈ found.take numEnts.toNat, (o.path pfb).length < lxMaxpath
  sorted : (found.take numEnts.toNat).Pairwise fun p q =>
    strncmp (o.xname p) (o.xname q) lxMaxpath ≤ 0

/-- An error ends the call before the entries are read, or they come in order. -/
def Opens (o : OpenedDir) (ans : ReopenAnswers) : Prop :=
  ∀ numFiles numSubdirs, ans.fileinfo = some (numFiles, numSubdirs) →
    (ans.dirinfo ∧ ans.dirents ∧ ans.pfb) ∧ ans.objects →
    o.dirname.chars.length + 1 < lxMaxpath ∧
      ∀ found, ans.found = some found → InOrder o (numFiles + numSubdirs) found

/-! ### What the loop leaves -/

variable {o : OpenedDir} {found : List FindBuf}

/-- The entries for what has been delivered. -/
def filled (o : OpenedDir) (found : List FindBuf) : List LxafsDirent := found.mapIdx o.dirent

theorem map_some_filled (found : List FindBuf) :
    (o.filled found).map some = found.mapIdx fun k pfb => some (o.dirent k pfb) :=
  (List.mapIdx_eq_iff.2 fun k => by
    rw [List.getElem?_map, filled, List.getElem?_mapIdx, Option.map_map]
    rfl).symm

theorem length_filled (found : List FindBuf) : (o.filled found).length = found.length :=
  List.length_mapIdx

theorem getElem_filled {k : ℕ} (hk : k < (o.filled found).length) :
    (o.filled found)[k] = o.dirent k (found.get ⟨k, length_filled found ▸ hk⟩) :=
  List.getElem_mapIdx

/-- The loop over fresh memory. -/
theorem fill_fresh_eq_some {numEnts : ULONG} {slots : ℕ} {ents : Dirents} :
    fill o numEnts 0 found (List.replicate slots none) = some ents ↔
      (∀ pfb ∈ found.take numEnts.toNat, (o.path pfb).length < lxMaxpath) ∧
      (found.take numEnts.toNat).length ≤ slots ∧
      ents = (o.filled (found.take numEnts.toNat)).map some ++
        List.replicate (slots - (found.take numEnts.toNat).length) none := by
  rw [fill_eq_some (Nat.zero_le _), map_some_filled]
  simp only [Nat.sub_zero, Nat.zero_add, List.length_replicate, List.take_zero, List.nil_append,
    List.drop_replicate]

theorem str_fspec (o : OpenedDir) : str o.fspec = o.dirname.chars ++ [slash] := by
  have hslash : str [slash] = [slash] := NoNul.str_eq (by decide)
  rw [fspec, str_strcat, o.dirname.str_copy, hslash]

/-- There is room for the `/` unless the name fills its buffer. -/
theorem length_fspec_le_iff (o : OpenedDir) :
    o.fspec.length ≤ lxMaxpath ↔ o.dirname.chars.length + 1 < lxMaxpath := by
  rw [fspec, length_strcat, o.dirname.strlen_copy, o.dirname.length_copy, strlen_slash]
  omega

theorem noNul_path (o : OpenedDir) (pfb : FindBuf) : NoNul (o.path pfb) :=
  (noNul_str _).append pfb.noNul

/-- A pointer into an entry that has been filled. -/
theorem deref_filled {k : ℕ} (hk : k < found.length) (off : ℕ) :
    Dirents.deref ((o.filled found).map some) ⟨k, off⟩ =
      (strncpy [] (o.path found[k]) lxMaxpath).drop off := by
  have hentry : Dirents.entry ((o.filled found).map some) k = some (o.dirent k found[k]) := by
    rw [Dirents.entry, map_some_filled, List.getElem?_mapIdx, List.getElem?_eq_getElem hk]
    rfl
  rw [Dirents.deref]
  simp only [hentry]
  rfl

/-- The three strings of an entry. -/
theorem strings_filled (hfits : ∀ pfb ∈ found, (o.path pfb).length < lxMaxpath) {k : ℕ}
    (hk : k < found.length) :
    str (o.dirent k found[k]).fullname = o.path found[k] ∧
    str (Dirents.deref ((o.filled found).map some) (o.dirent k found[k]).xname) =
      o.xname found[k] ∧
    str (Dirents.deref ((o.filled found).map some) (o.dirent k found[k]).name) =
      found[k].achName := by
  have hlt := hfits found[k] (List.getElem_mem hk)
  have hno := noNul_path o found[k]
  have hdrop := str_strncpy_nil_drop hno hlt
  have hfull : str (strncpy [] (o.path found[k]) lxMaxpath) = o.path found[k] := hdrop 0
  refine ⟨hfull, (congrArg str (deref_filled hk _)).trans (hdrop _), ?_⟩
  rw [dirent, deref_filled hk, hdrop, strlen, strlen, hfull, found[k].noNul.str_eq, path,
    List.length_append, Nat.add_sub_cancel, List.drop_left]

/-- The entries are what has been delivered. -/
theorem map_filled (hfits : ∀ pfb ∈ found, (o.path pfb).length < lxMaxpath) :
    ((o.filled found).map fun d =>
      (str d.fullname, str (Dirents.deref ((o.filled found).map some) d.name), d.type)) =
    found.map fun pfb => (o.path pfb, pfb.achName, pfb.direntType) := by
  refine List.ext_getElem (by simp [length_filled]) fun k hk hk' => ?_
  rw [List.length_map] at hk'
  obtain ⟨hfull, -, hname⟩ := strings_filled hfits hk'
  rw [List.getElem_map, List.getElem_map, getElem_filled, List.get_eq_getElem, hfull, hname]
  rfl

/-- They are in order if that is delivered in order. -/
theorem pairwise_filled (hfits : ∀ pfb ∈ found, (o.path pfb).length < lxMaxpath) :
    ((o.filled found).Pairwise fun d d' =>
      strncmp (Dirents.deref ((o.filled found).map some) d.xname)
        (Dirents.deref ((o.filled found).map some) d'.xname) lxMaxpath ≤ 0) ↔
    found.Pairwise fun p q => strncmp (o.xname p) (o.xname q) lxMaxpath ≤ 0 := by
  have hcmp : ∀ {j k : ℕ} (hj : j < found.length) (hk : k < found.length),
      strncmp (Dirents.deref ((o.filled found).map some) (o.dirent j found[j]).xname)
        (Dirents.deref ((o.filled found).map some) (o.dirent k found[k]).xname) lxMaxpath =
      strncmp (o.xname found[j]) (o.xname found[k]) lxMaxpath := fun hj hk => by
    rw [← strncmp_str, (strings_filled hfits hj).2.1, (strings_filled hfits hk).2.1]
  simp only [List.pairwise_iff_getElem, getElem_filled, List.get_eq_getElem, length_filled]
  exact forall₂_congr fun j k => forall₃_congr fun hj hk _ => by rw [hcmp hj hk]

/-- With all the entries filled, the snapshot is complete, and it is sorted if the host has
delivered it so. -/
theorem snapshot_filled_iff {f : DirFile} (hcomplete : f.numEnts.toNat ≤ found.length)
    (hfits : ∀ pfb ∈ found.take f.numEnts.toNat, (o.path pfb).length < lxMaxpath)
    (hdirents : f.dirents = some ((o.filled (found.take f.numEnts.toNat)).map some)) :
    Snapshot o found f ↔ (found.take f.numEnts.toNat).Pairwise fun p q =>
      strncmp (o.xname p) (o.xname q) lxMaxpath ≤ 0 := by
  have hlen : (o.filled (found.take f.numEnts.toNat)).length = f.numEnts.toNat := by
    rw [length_filled, List.length_take, Nat.min_eq_left hcomplete]
  have htake : ((o.filled (found.take f.numEnts.toNat)).map some).take f.numEnts.toNat =
      (o.filled (found.take f.numEnts.toNat)).map some :=
    List.take_of_length_le (by rw [List.length_map, hlen])
  rw [← pairwise_filled hfits]
  constructor
  · rintro ⟨ents, es, hents, hes, -, -, hsorted⟩
    obtain rfl := Option.some.inj (hents.symm.trans hdirents)
    obtain rfl := List.map_injective_iff.2 (Option.some_injective _) (htake.symm.trans hes)
    exact hsorted
  · intro hsorted
    exact ⟨_, _, hdirents, htake, hlen, .of_eq (map_filled hfits), hsorted⟩

/-- The memory holds all the entries unless its size wraps around. -/
theorem slots_spec (n : ULONG) :
    slots n ≤ n.toNat ∧ (n.toNat ≤ slots n ↔ sizeofDirent.toNat * n.toNat < 2 ^ 32) := by
  have hlt := n.isLt
  rw [slots, BitVec.toNat_mul, sizeofDirent]
  simp only [BitVec.reduceToNat]
  omega

/-- Nothing is left unfilled in a snapshot. -/
theorem complete_of_snapshot {f : DirFile}
    (hroom : (found.take f.numEnts.toNat).length ≤ slots f.numEnts)
    (hdirents : f.dirents = some ((o.filled (found.take f.numEnts.toNat)).map some ++
      List.replicate (slots f.numEnts - (found.take f.numEnts.toNat).length) none))
    (h : Snapshot o found f) :
    f.numEnts.toNat ≤ found.length ∧ f.numEnts.toNat ≤ slots f.numEnts := by
  obtain ⟨ents, es, hents, hes, hnum, -, -⟩ := h
  obtain rfl := Option.some.inj (hents.symm.trans hdirents)
  have hle := (slots_spec f.numEnts).1
  have hall : (o.filled (found.take f.numEnts.toNat)).map some ++
      List.replicate (slots f.numEnts - (found.take f.numEnts.toNat).length) none =
        es.map some := by
    refine (List.take_of_length_le ?_).symm.trans hes
    rw [List.length_append, List.length_map, length_filled, List.length_replicate]
    omega
  have hcount := congrArg List.length hall
  have hfull : slots f.numEnts - (found.take f.numEnts.toNat).length = 0 := by
    by_contra hne
    have hnone : none ∈ es.map some :=
      hall ▸ List.mem_append_right _ (List.mem_replicate.2 ⟨hne, rfl⟩)
    simp at hnone
  rw [List.length_append, List.length_map, length_filled, List.length_replicate, List.length_map,
    hnum] at hcount
  have hmin := List.length_take_le' f.numEnts.toNat found
  omega

/-- What is filled and sorted is a snapshot if it has been delivered in order. -/
theorem snapshot_iff (found : List FindBuf) (f : DirFile) :
    (∃ ents, (fill o f.numEnts 0 found (List.replicate (slots f.numEnts) none)).bind
        (sortOuter f.numEnts 0) = some ents ∧ Snapshot o found { f with dirents := some ents }) ↔
      InOrder o f.numEnts found := by
  obtain ⟨hle, hmem⟩ := slots_spec f.numEnts
  constructor
  · rintro ⟨ents, hbind, hsnap⟩
    obtain ⟨ents₁, hfill, hsort⟩ := Option.bind_eq_some_iff.1 hbind
    obtain rfl := sortOuter_some hsort
    obtain ⟨hfits, hlen, rfl⟩ := fill_fresh_eq_some.1 hfill
    obtain ⟨hcomplete, hslots⟩ := complete_of_snapshot
      (f := { f with dirents := some _ }) hlen rfl hsnap
    have hall : (o.filled (found.take f.numEnts.toNat)).map some ++ List.replicate
        (slots f.numEnts - (found.take f.numEnts.toNat).length) none =
          (o.filled (found.take f.numEnts.toNat)).map some := by
      rw [List.length_take, Nat.min_eq_left hcomplete, Nat.sub_eq_zero_of_le hle,
        List.replicate_zero, List.append_nil]
    exact ⟨hcomplete, hmem.1 hslots, hfits, (snapshot_filled_iff
      (f := { f with dirents := _ }) hcomplete hfits (congrArg some hall)).1 hsnap⟩
  · intro hin
    have hslots := hmem.2 hin.memory
    have hlen : (found.take f.numEnts.toNat).length = f.numEnts.toNat := by
      rw [List.length_take, Nat.min_eq_left hin.complete]
    have hfill : fill o f.numEnts 0 found (List.replicate (slots f.numEnts) none) = _ :=
      fill_fresh_eq_some.2 ⟨hin.fits, hlen.trans_le hslots, rfl⟩
    rw [hlen, Nat.sub_eq_zero_of_le hle, List.replicate_zero, List.append_nil] at hfill
    refine ⟨_, Option.bind_eq_some_iff.2 ⟨_, hfill, sortOuter_eq (fun k hk => ?_) 0⟩,
      (snapshot_filled_iff (f := { f with dirents := some _ }) hin.complete hin.fits rfl).2
        hin.sorted⟩
    rw [← hlen] at hk
    refine ⟨o.dirent k (found.take f.numEnts.toNat)[k], ?_⟩
    rw [Dirents.entry, map_some_filled, List.getElem?_mapIdx, List.getElem?_eq_getElem hk]
    rfl

/-- `lxafs_reopen_dir`, once there is memory. -/
theorem reopenDir_allocated {ans : ReopenAnswers} {f : DirFile} {numFiles numSubdirs : ULONG}
    (hinfo : ans.fileinfo = some (numFiles, numSubdirs))
    (hmem : (ans.dirinfo ∧ ans.dirents ∧ ans.pfb) ∧ ans.objects)
    (hroom : o.fspec.length ≤ lxMaxpath) :
    reopenDir o ans f =
      match ans.found with
      | none => some (-errENOENT, { f with numEnts := numFiles + numSubdirs })
      | some found =>
        ((fill o (numFiles + numSubdirs) 0 found
          (List.replicate (slots (numFiles + numSubdirs)) none)).bind
            (sortOuter (numFiles + numSubdirs) 0)).map fun dirents =>
              (0, ⟨0, numFiles + numSubdirs, some dirents⟩) := by
  rw [reopenDir, hinfo]
  simp only [hmem.1, hmem.2, Nat.not_lt.2 hroom, not_true_eq_false, if_false, and_self]
  cases ans.found with
  | none => rfl
  | some found => exact (Option.map_bind ..).symm

/-- What is read is a snapshot if it has been delivered in order. -/
theorem opensSorted_found_iff {ans : ReopenAnswers} {f : DirFile} {numFiles numSubdirs : ULONG}
    (hinfo : ans.fileinfo = some (numFiles, numSubdirs))
    (hmem : (ans.dirinfo ∧ ans.dirents ∧ ans.pfb) ∧ ans.objects)
    (hroom : o.fspec.length ≤ lxMaxpath) (hfound : ans.found = some found) :
    OpensSorted o ans f ↔ InOrder o (numFiles + numSubdirs) found := by
  rw [OpensSorted, reopenDir_allocated hinfo hmem hroom, hfound]
  simp only [Option.some.injEq, exists_eq_left']
  rw [← snapshot_iff found ⟨0, numFiles + numSubdirs, none⟩]
  cases (fill o (numFiles + numSubdirs) 0 found
    (List.replicate (slots (numFiles + numSubdirs)) none)).bind
      (sortOuter (numFiles + numSubdirs) 0) with
  | none => simp
  | some ents => simp

/-- **Opening a directory** gives a sorted and complete snapshot if and only if the host delivers
what it has counted, in order, and there is room for it. -/
theorem reopenDir_sorted_iff (o : OpenedDir) (ans : ReopenAnswers) (f : DirFile) :
    OpensSorted o ans f ↔ Opens o ans := by
  cases hinfo : ans.fileinfo with
  | none =>
    have hne : -errENOMEM ≠ 0 := by decide
    refine iff_of_true ⟨_, by rw [reopenDir, hinfo], fun h => absurd h hne⟩ fun _ _ h => ?_
    cases hinfo.symm.trans h
  | some counts =>
    obtain ⟨numFiles, numSubdirs⟩ := counts
    have hOpens : Opens o ans ↔ ((ans.dirinfo ∧ ans.dirents ∧ ans.pfb) ∧ ans.objects →
        o.dirname.chars.length + 1 < lxMaxpath ∧
          ∀ found, ans.found = some found → InOrder o (numFiles + numSubdirs) found) := by
      simp [Opens, hinfo]
    rw [hOpens, ← length_fspec_le_iff]
    by_cases hmem : (ans.dirinfo ∧ ans.dirents ∧ ans.pfb) ∧ ans.objects
    · rw [imp_iff_right hmem]
      by_cases hroom : o.fspec.length ≤ lxMaxpath
      · rw [and_iff_right hroom]
        cases hfound : ans.found with
        | none =>
          have hne : -errENOENT ≠ 0 := by decide
          rw [OpensSorted, reopenDir_allocated hinfo hmem hroom, hfound]
          exact iff_of_true ⟨_, rfl, fun h => absurd h hne⟩ fun _ h => nomatch h
        | some found =>
          simp only [Option.some.injEq, forall_eq']
          exact opensSorted_found_iff hinfo hmem hroom hfound
      · -- the `/` behind the name of the directory has no room
        refine iff_of_false ?_ fun h => hroom h.1
        rintro ⟨r, hr, -⟩
        rw [reopenDir, hinfo] at hr
        simp [hmem.1, hmem.2, Nat.lt_of_not_le hroom] at hr
    · refine iff_of_true ?_ fun h => absurd h hmem
      rw [OpensSorted, reopenDir, hinfo]
      dsimp only
      have hne : -errENOMEM ≠ 0 := by decide
      by_cases hkmalloc : ans.dirinfo ∧ ans.dirents ∧ ans.pfb
      · rw [if_neg (not_not_intro hkmalloc), if_pos fun hobjects => hmem ⟨hkmalloc, hobjects⟩]
        exact ⟨_, rfl, fun h => absurd h hne⟩
      · rw [if_pos hkmalloc]
        exact ⟨_, rfl, fun h => absurd h hne⟩

/-- The directory `C:/d` of a file system at `C:`. -/
def sampleDir : OpenedDir :=
  ⟨⟨dirName, by decide, by decide⟩, ⟨rootName, noNul_rootName, length_rootName_lt⟩⟩

/-- The host counts two files in it and delivers `b` and `a`. -/
def descending : ReopenAnswers where
  fileinfo := some (2, 0)
  dirinfo := true
  dirents := true
  pfb := true
  objects := true
  found := some [⟨[98], 0, by decide⟩, ⟨[97], 0, by decide⟩]

/-- Files that come in descending order stay so. -/
theorem not_opensSorted_descending : ¬ OpensSorted sampleDir descending ⟨0, 0, none⟩ := by
  have hroom := (length_fspec_le_iff sampleDir).2 (by decide)
  rw [opensSorted_found_iff rfl (by decide) hroom rfl]
  intro hin
  have hsorted := List.rel_of_pairwise_cons hin.sorted (List.mem_singleton_self _)
  simp only [xname, path, str_fspec] at hsorted
  exact absurd hsorted (by decide)

end OpenedDir

end LxApi32
