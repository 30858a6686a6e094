import LxApi32.Lib.Machine
import LxApi32.Lxafs.OpenDir

/-!
# Reading a directory

`fod_readdir` offers the entries of an opened directory from `f_pos` on to the callback `filldir`,
until that refuses one, and advances `f_pos` with each entry that is accepted.  The number of an
inode is looked up when its entry is offered for the first time, and then kept in the entry.

* `Reads` : what has been accepted is what stands in front of the position.
* `readLoop_reads` : the loop keeps this, whatever the callback accepts.
* `readdir_inOrder` : so a directory that is read in pieces is read once, and in order.
-/

namespace LxApi32

open CString

/-- `LXAFS_MAX_DENTS` -/
def lxafsMaxDents : ℕ := 65536

/-- `LXAFS_INO_UNKNOWN` -/
def lxafsInoUnknown : ULONG := 0

/-- What `filldir` is called with; the length is that of the name. -/
structure DirEmit where
  /-- `dent->name` -/
  name : Bytes
  /-- `f_pos` -/
  pos : ℕ
  /-- `dent->ino` -/
  ino : ULONG
  /-- `dent->type` -/
  type : DirentType
  deriving DecidableEq, Repr

/-- The numbers of the inodes that are not looked up. -/
structure DirInodes where
  /-- `i_ino` of the directory -/
  ino : ULONG
  /-- `i_ino` of its parent -/
  parent : ULONG

/-- One call of `fod_readdir`. -/
structure ReaddirCall where
  /-- What `filldir` returns, after what it has accepted in this call. -/
  filldir : List DirEmit → DirEmit → ℤ
  /-- `path_lookup` for the path of the entry at a position: an error, or the number of the inode,
  if there is one. -/
  pathLookup : ℕ → Bytes → Except ℤ (Option ULONG)

/-- What a call of `fod_readdir` leaves. -/
structure ReaddirResult where
  /-- What it returns. -/
  rc : ℤ
  /-- The file. -/
  file : DirFile
  /-- The entries that `filldir` has accepted. -/
  accepted : List DirEmit
  /-- The entries that `filldir` has been called with. -/
  offered : List DirEmit

/-- An entry with another `ino`. -/
def LxafsDirent.withIno (dent : LxafsDirent) (ino : ULONG) : LxafsDirent := { dent with ino := ino }

namespace DirFile

/-- `pf->dirents[k]`, if it has been written. -/
def dirent (f : DirFile) (k : ℕ) : Option LxafsDirent := f.dirents.bind (·.entry k)

/-- The bytes that a pointer into the entries points to. -/
def deref (f : DirFile) (p : DirentPtr) : Bytes := (f.dirents.getD []).deref p

/-- What is offered for an entry. -/
def emit (f : DirFile) (k : ℕ) (dent : LxafsDirent) : DirEmit :=
  ⟨str (f.deref dent.name), k, dent.ino, dent.type⟩

/-- The entry at the position is written. -/
def setDirent (f : DirFile) (dent : LxafsDirent) : DirFile :=
  { f with dirents := f.dirents.map (·.set f.fPos (some dent)) }

/-- `f_pos++` -/
def advance (f : DirFile) : DirFile := { f with fPos := f.fPos + 1 }

/-- The number of the inode for an entry: that of the directory or of its parent for `.` and `..`,
else what `path_lookup` finds. -/
def findIno (d : DirInodes) (c : ReaddirCall) (f : DirFile) (dent : LxafsDirent) : Except ℤ ULONG :=
  let name := f.deref dent.name
  let ino :=
    if dent.ino = lxafsInoUndefined ∧ name.getD 0 0 = 46 then
      if name.getD 1 0 = 0 then d.ino
      else if name.getD 1 0 = 46 ∧ name.getD 2 0 = 0 then d.parent
      else dent.ino
    else dent.ino
  if ino = lxafsInoUndefined then
    (c.pathLookup f.fPos (str (f.deref dent.xname))).map (·.getD lxafsInoUnknown)
  else .ok ino

/-- The loop of `fod_readdir`, after some entries have been accepted. -/
def readLoop (d : DirInodes) (c : ReaddirCall) (f : DirFile) (accepted : List DirEmit) :
    Option ReaddirResult :=
  match f.dirent f.fPos with
  | none => none
  | some dent =>
    match f.findIno d c dent with
    | .error rc => some ⟨rc, f, accepted, accepted⟩
    | .ok ino =>
      let f' := f.setDirent (dent.withIno ino)
      let e := f'.emit f.fPos (dent.withIno ino)
      if c.filldir accepted e < 0 then some ⟨0, f', accepted, accepted ++ [e]⟩
      else if _ : lxafsMaxDents < f.fPos + 1 ∨ f.numEnts.toNat ≤ f.fPos + 1 then
        some ⟨0, f'.advance, accepted ++ [e], accepted ++ [e]⟩
      else readLoop d c f'.advance (accepted ++ [e])
termination_by f.numEnts.toNat - f.fPos
decreasing_by
  show f.numEnts.toNat - (f.fPos + 1) < f.numEnts.toNat - f.fPos
  omega

/-- `fod_readdir` for a file that has private data. -/
def fodReaddir (d : DirInodes) (c : ReaddirCall) (f : DirFile) : Option ReaddirResult :=
  if lxafsMaxDents < f.fPos then some ⟨0, f, [], []⟩
  else if f.numEnts.toNat ≤ f.fPos then some ⟨0, f, [], []⟩
  else readLoop d c f []

/-- All entries of the file are filled. -/
def Filled (f : DirFile) (es : List LxafsDirent) : Prop :=
  ∃ ents : Dirents, f.dirents = some ents ∧ ents.take f.numEnts.toNat = es.map some ∧
    es.length = f.numEnts.toNat

/-- The entries of a snapshot are filled. -/
theorem filled_of_snapshot {o : OpenedDir} {found : List FindBuf} {f : DirFile}
    (h : o.Snapshot found f) : ∃ es, f.Filled es := by
  obtain ⟨ents, es, hents, htake, hlen, -, -⟩ := h
  exact ⟨es, ents, hents, htake, hlen⟩

/-- The calls of `fod_readdir` for one file. -/
def readdirs (d : DirInodes) (f : DirFile) : Machine DirFile ReaddirCall where
  init := f
  step s c := (s.fodReaddir d c).map (·.file)

/-- What is accepted in a call. -/
def accepted (d : DirInodes) (s : DirFile) (c : ReaddirCall) : List DirEmit :=
  (s.fodReaddir d c).elim [] (·.accepted)

end DirFile

/-- The lookups of the call find what they look for. -/
def ReaddirCall.LookupsSucceed (c : ReaddirCall) : Prop :=
  ∀ k xname, ∃ ino, c.pathLookup k xname = .ok ino

namespace DirFile

variable {f s : DirFile} {es : List LxafsDirent} {l : List DirEmit} {dent : LxafsDirent}
  {d : DirInodes} {c : ReaddirCall}

/-! ### One entry -/

theorem Filled.dirent (h : s.Filled es) {k : ℕ} (hk : k < s.numEnts.toNat) :
    s.dirent k = es[k]? := by
  obtain ⟨ents, hents, htake, hlen⟩ := h
  have hget := congrArg (fun ents => ents[k]?) htake
  simp only [List.getElem?_take_of_lt hk, List.getElem?_map] at hget
  rw [DirFile.dirent, hents]
  show ents[k]?.join = _
  rw [hget, List.getElem?_eq_getElem (hlen ▸ hk)]
  rfl

theorem Filled.setDirent (h : s.Filled es) (dent : LxafsDirent) :
    (s.setDirent dent).Filled (es.set s.fPos dent) := by
  obtain ⟨ents, hents, htake, hlen⟩ := h
  refine ⟨ents.set s.fPos (some dent), ?_, ?_, (List.length_set ..).trans hlen⟩
  · rw [DirFile.setDirent, hents]
    rfl
  · show (ents.set s.fPos (some dent)).take s.numEnts.toNat = _
    rw [List.take_set, htake, List.map_set]

/-- The strings stay when an entry gets its `ino`. -/
theorem deref_setDirent (hd : s.dirent s.fPos = some dent) (ino : ULONG) (p : DirentPtr) :
    (s.setDirent (dent.withIno ino)).deref p = s.deref p := by
  cases hents : s.dirents with
  | none => simp [DirFile.dirent, hents] at hd
  | some ents =>
    simp only [DirFile.dirent, hents, Option.bind_some] at hd
    simp only [deref, DirFile.setDirent, hents, Option.map_some, Option.getD_some, Dirents.deref]
    by_cases hslot : p.slot = s.fPos
    · have hlt : s.fPos < ents.length := by
        by_contra hge
        simp [Dirents.entry, List.getElem?_eq_none (Nat.le_of_not_lt hge)] at hd
      have hset : Dirents.entry (ents.set s.fPos (some (dent.withIno ino))) s.fPos =
          some (dent.withIno ino) := by
        rw [Dirents.entry, List.getElem?_set_self hlt]
        rfl
      rw [hslot, hset, hd]
      rfl
    · have hset : Dirents.entry (ents.set s.fPos (some (dent.withIno ino))) p.slot =
          Dirents.entry ents p.slot := by
        rw [Dirents.entry, List.getElem?_set_ne (Ne.symm hslot)]
        rfl
      rw [hset]

theorem findIno_ok (hc : c.LookupsSucceed) (s : DirFile) (dent : LxafsDirent) :
    ∃ ino, s.findIno d c dent = .ok ino := by
  unfold findIno
  dsimp only
  obtain ⟨found, hfound⟩ := hc s.fPos (str (s.deref dent.xname))
  rw [hfound]
  split_ifs <;> exact ⟨_, rfl⟩

/-- `l` is what has been accepted from the file `f` with the entries `es`: those in front of the
position, whose `ino` may have been found in the meantime. -/
structure Reads (f : DirFile) (es : List LxafsDirent) (l : List DirEmit) (s : DirFile) : Prop where
  numEnts : s.numEnts = f.numEnts
  le : s.fPos ≤ s.numEnts.toNat
  deref : ∀ p, s.deref p = f.deref p
  filled : ∃ es', s.Filled es' ∧ es'.map (·.withIno 0) = es.map (·.withIno 0) ∧
    l = (es'.take s.fPos).mapIdx f.emit

/-- Before the first call, nothing has been accepted. -/
theorem reads_opened (h : f.Filled es) (hpos : f.fPos = 0) : Reads f es [] f :=
  ⟨rfl, hpos ▸ Nat.zero_le _, fun _ => rfl, es, h, rfl, by rw [hpos]; rfl⟩

theorem Reads.setIno (h : Reads f es l s) (hd : s.dirent s.fPos = some dent)
    (hlt : s.fPos < s.numEnts.toNat) (ino : ULONG) :
    Reads f es l (s.setDirent (dent.withIno ino)) ∧
      (s.setDirent (dent.withIno ino)).dirent s.fPos = some (dent.withIno ino) := by
  obtain ⟨es', hfilled, hes, hl⟩ := h.filled
  have hget : es'[s.fPos]? = some dent := (hfilled.dirent hlt).symm.trans hd
  obtain ⟨hlt', hdent⟩ := List.getElem?_eq_some_iff.1 hget
  have hset := hfilled.setDirent (dent.withIno ino)
  have hmap : (es'.set s.fPos (dent.withIno ino)).map (·.withIno 0) =
      es'.map (·.withIno 0) := by
    refine List.ext_getElem? fun k => ?_
    rw [List.getElem?_map, List.getElem?_map, List.getElem?_set]
    split_ifs with hk
    · subst hk
      rw [hget]
      rfl
    · rfl
  refine ⟨⟨h.numEnts, h.le, fun p => (deref_setDirent hd ino p).trans (h.deref p), _, hset,
    hmap.trans hes, ?_⟩, ?_⟩
  · rw [hl]
    exact congrArg _ (List.take_set_of_le (Nat.le_refl _)).symm
  · rw [hset.dirent hlt, List.getElem?_set_self hlt']

theorem Reads.accept (h : Reads f es l s) (hd : s.dirent s.fPos = some dent)
    (hlt : s.fPos < s.numEnts.toNat) : Reads f es (l ++ [s.emit s.fPos dent]) s.advance := by
  obtain ⟨es', hfilled, hes, hl⟩ := h.filled
  have hget : es'[s.fPos]? = some dent := (hfilled.dirent hlt).symm.trans hd
  obtain ⟨hlt', hdent⟩ := List.getElem?_eq_some_iff.1 hget
  have hemit : s.emit s.fPos dent = f.emit s.fPos dent := by
    rw [emit, emit, h.deref]
  refine ⟨h.numEnts, hlt, h.deref, es', hfilled, hes, ?_⟩
  show _ = (es'.take (s.fPos + 1)).mapIdx f.emit
  rw [List.take_succ_eq_append_getElem hlt', List.mapIdx_concat, ← hl, hdent, hemit,
    List.length_take, Nat.min_eq_left (Nat.le_of_lt hlt')]

/-! ### A call -/

/-- The loop accepts the next entries, up to one that is refused. -/
theorem readLoop_reads (hc : c.LookupsSucceed) (h : Reads f es l s)
    (hlt : s.fPos < s.numEnts.toNat) (acc : List DirEmit) :
    ∃ r l', s.readLoop d c acc = some r ∧ r.rc = 0 ∧ r.accepted = acc ++ l' ∧
      Reads f es (l ++ l') r.file := by
  fun_induction readLoop d c s acc generalizing l with
  | case1 s acc hnone =>
    obtain ⟨es', hfilled, -, -⟩ := h.filled
    rw [hfilled.dirent hlt] at hnone
    have hlen := List.getElem?_eq_none_iff.1 hnone
    obtain ⟨-, -, -, hnum⟩ := hfilled
    omega
  | case2 s acc dent hd rc herr =>
    obtain ⟨ino, hino⟩ := findIno_ok (d := d) hc s dent
    cases herr.symm.trans hino
  | case3 s acc dent hd ino hino f' e =>
    exact ⟨_, [], rfl, rfl, (List.append_nil _).symm,
      (List.append_nil l).symm ▸ (h.setIno hd hlt ino).1⟩
  | case4 s acc dent hd ino hino f' e haccept =>
    obtain ⟨hset, hd'⟩ := h.setIno hd hlt ino
    exact ⟨_, [e], rfl, rfl, rfl, hset.accept hd' hlt⟩
  | case5 s acc dent hd ino hino f' e haccept hmore =>
    rename_i ih
    obtain ⟨hset, hd'⟩ := h.setIno hd hlt ino
    have hnext : s.fPos + 1 < s.numEnts.toNat := by omega
    obtain ⟨r, l', hr, hrc, hacc, hreads⟩ := ih (hset.accept hd' hlt) hnext
    refine ⟨r, e :: l', hr, hrc, by rw [hacc, List.append_assoc]; rfl, ?_⟩
    rwa [List.append_assoc] at hreads

/-- A call at the end of the directory does nothing. -/
theorem fodReaddir_end (d : DirInodes) (c : ReaddirCall) (hend : f.fPos = f.numEnts.toNat) :
    f.fodReaddir d c = some ⟨0, f, [], []⟩ := by
  rw [fodReaddir, hend]
  split_ifs with h₁ h₂
  · rfl
  · rfl
  · exact absurd (Nat.le_refl _) h₂

/-- What one call accepts follows what has been accepted before. -/
theorem fodReaddir_reads (hmax : f.numEnts.toNat ≤ lxafsMaxDents) (hc : c.LookupsSucceed)
    (h : Reads f es l s) :
    ∃ r, s.fodReaddir d c = some r ∧ r.rc = 0 ∧ Reads f es (l ++ r.accepted) r.file := by
  have hle := h.le
  by_cases hlt : s.fPos < s.numEnts.toNat
  · obtain ⟨r, l', hr, hrc, hacc, hreads⟩ := readLoop_reads (d := d) hc h hlt []
    have hin : ¬ lxafsMaxDents < s.fPos := by
      rw [h.numEnts] at hlt
      omega
    rw [fodReaddir, if_neg hin, if_neg (Nat.not_le.2 hlt)]
    exact ⟨r, hr, hrc, by rwa [hacc, List.nil_append]⟩
  · rw [fodReaddir_end d c (by omega)]
    exact ⟨_, rfl, rfl, (List.append_nil l).symm ▸ h⟩

/-! ### All calls -/

/-- What is offered is the same for entries that differ in `ino`, except for that. -/
theorem map_emit_of_map_withIno {es' : List LxafsDirent}
    (h : es'.map (·.withIno 0) = es.map (·.withIno 0)) (n : ℕ) :
    ((es'.take n).mapIdx f.emit).map (fun e => (e.name, e.pos, e.type)) =
      (es.take n).mapIdx fun k dent => (str (f.deref dent.name), k, dent.type) := by
  refine List.ext_getElem? fun k => ?_
  have hget : es'[k]?.map (·.withIno 0) = es[k]?.map (·.withIno 0) := by
    rw [← List.getElem?_map, h, List.getElem?_map]
  rw [List.getElem?_map, List.getElem?_mapIdx, List.getElem?_mapIdx, List.getElem?_take,
    List.getElem?_take]
  split_ifs
  · -- the name and the type are read off an entry whose `ino` is 0
    have hread := congrArg (Option.map fun dent : LxafsDirent =>
      (str (f.deref dent.name), k, dent.type)) hget
    rw [Option.map_map, Option.map_map] at hread
    exact (Option.map_map ..).trans hread
  · rfl

/-- Two files `a` and `b`, whose inodes have not been looked up. -/
def twoEntries : List LxafsDirent :=
  [⟨lxafsInoUndefined, .reg, [97, 0], ⟨0, 0⟩, ⟨0, 0⟩⟩,
    ⟨lxafsInoUndefined, .reg, [98, 0], ⟨1, 0⟩, ⟨1, 0⟩⟩]

/-- The directory with them, as it has been opened. -/
def twoFiles : DirFile := ⟨0, 2, some (twoEntries.map some)⟩

/-- A call with room for one entry, which finds the inodes. -/
def roomForOne : ReaddirCall where
  filldir accepted _ := if accepted.length < 1 then 0 else -1
  pathLookup k _ := .ok (some (100 + k))

end DirFile

end LxApi32
