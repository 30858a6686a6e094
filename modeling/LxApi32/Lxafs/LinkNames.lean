import LxApi32.Lib.FirstMatch
import LxApi32.Lib.Machine
import LxApi32.Lxafs.HardLink

/-!
# The names of a link list

`lxafs_add_linkinfo` looks for a name in the list of an inode before it puts it there, and
`lxafs_detach_linked_file` takes out the first entry with a name.  The names stand in buffers of
`LX_MAXPATH` bytes, with or without a `0`.

* `addLoop_eq`, `detachLoop_eq` : what the two loops find.
* `linkNames_run` : if the names of a list are different, they stay so, and so an entry that is
  taken out is the only one with its name.
* `links_addLinkinfo`, `links_detachLinkedFile` : the same calls for names that are paths.
-/

namespace LxApi32

open CString

/-- `struct lxafs_linkinfo`, without its place in the list. -/
structure LxafsLinkinfo where
  /-- `name` -/
  name : Bytes
  length_name : name.length = lxMaxpath
  deriving DecidableEq

/-- A path in the buffer of an entry. -/
def PathName.linkinfo (n : PathName) : LxafsLinkinfo :=
  ⟨strncpy [] n.chars lxMaxpath, n.length_copy⟩

/-- The string in `name`. -/
def LxafsLinkinfo.chars (lfo : LxafsLinkinfo) : Bytes := str lfo.name

/-- The link list of an inode. -/
structure InodeLinks where
  /-- `linkinfo.list` -/
  list : List LxafsLinkinfo
  /-- `dirty_flag` -/
  dirtyFlag : ULONG
  deriving DecidableEq

/-- The loop of `lxafs_add_linkinfo`: `rc` after it. -/
def addLoop (linkinfo : LxafsLinkinfo) : List LxafsLinkinfo → ULONG
  | [] => 0
  | lfo :: list =>
    if strncmp lfo.name linkinfo.name lxMaxpath = 0 then negEBUSY else addLoop linkinfo list

/-- The loop of `lxafs_detach_linked_file`: `rc` and the list after it. -/
def detachLoop (link : LxafsLinkinfo) : List LxafsLinkinfo → ULONG × List LxafsLinkinfo
  | [] => (negENOENT, [])
  | lfo :: list =>
    if strncmp lfo.name link.name lxMaxpath = 0 then (0, list)
    else
      let r := detachLoop link list
      (r.1, lfo :: r.2)

namespace InodeLinks

/-- The names in the list. -/
def names (i : InodeLinks) : List Bytes := i.list.map LxafsLinkinfo.chars

/-- `lxafs_add_linkinfo` -/
def addLinkinfo (linkinfo : LxafsLinkinfo) (tail : Bool) (i : InodeLinks) : ULONG × InodeLinks :=
  let rc := addLoop linkinfo i.list
  (rc, if rc = 0 then
      { i with list := if tail then i.list ++ [linkinfo] else linkinfo :: i.list }
    else i)

/-- What `lxafs_detach_linked_file` does with the inode that it finds. -/
def detach (link : LxafsLinkinfo) (i : InodeLinks) : ULONG × InodeLinks :=
  let r := detachLoop link i.list
  (r.1, ⟨r.2, if r.1 = 0 then i.dirtyFlag ||| lxafsDirtyLinklist else i.dirtyFlag⟩)

end InodeLinks

section

variable {ι : Type} [DecidableEq ι]

/-- `lxafs_detach_linked_file`; `lookup` is the result of `path_lookup`, and the inode that it
finds, if there is one. -/
def detachLinkedFile (lookup : ULONG × Option ι) (link : LxafsLinkinfo) (s : ι → InodeLinks) :
    ULONG × (ι → InodeLinks) :=
  if lookup.1 ≠ 0 then (lookup.1, s)
  else
    match lookup.2 with
    | none => (negENOENT, s)
    | some i =>
      let r := (s i).detach link
      (r.1, Function.update s i r.2)

/-- A call that changes a link list. -/
inductive LinkNameAct (ι : Type)
  /-- `lxafs_add_linkinfo` -/
  | add (inode : ι) (linkinfo : LxafsLinkinfo) (tail : Bool)
  /-- `lxafs_detach_linked_file` -/
  | detach (lookup : ULONG × Option ι) (link : LxafsLinkinfo)

/-- The result of a call, and the link lists after it. -/
def LinkNameAct.run (s : ι → InodeLinks) : LinkNameAct ι → ULONG × (ι → InodeLinks)
  | .add inode linkinfo tail =>
    let r := (s inode).addLinkinfo linkinfo tail
    (r.1, Function.update s inode r.2)
  | .detach lookup link => detachLinkedFile lookup link s

/-- The inodes of a file system with the link lists `s₀`. -/
def linkNameMachine (s₀ : ι → InodeLinks) : Machine (ι → InodeLinks) (LinkNameAct ι) where
  init := s₀
  step s a := some (a.run s).2

/-- What a call of `lxafs_add_linkinfo` that returns `rc` should make of the link list `i`. -/
structure Added (linkinfo : LxafsLinkinfo) (tail : Bool) (i : InodeLinks) (rc : ULONG)
    (i' : InodeLinks) : Prop where
  busy : rc = negEBUSY ↔ linkinfo.chars ∈ i.names
  refused : rc = negEBUSY → i' = i
  accepted : rc ≠ negEBUSY →
    rc = 0 ∧ i'.list = if tail then i.list ++ [linkinfo] else linkinfo :: i.list

/-- What a call of `lxafs_detach_linked_file` that returns `rc` should make of the link list `i`. -/
structure Detached (link : LxafsLinkinfo) (i : InodeLinks) (rc : ULONG) (i' : InodeLinks) :
    Prop where
  rc_eq : rc = if link.chars ∈ i.names then 0 else negENOENT
  list_eq : i'.list = i.list.filter fun lfo => lfo.chars ≠ link.chars

/-- What a call should make of the link list of the inode `i`. -/
def LinkCallOk (i : ι) (s : ι → InodeLinks) (a : LinkNameAct ι) : Prop :=
  let r := a.run s
  match a with
  | .add inode linkinfo tail =>
    if inode = i then Added linkinfo tail (s i) r.1 (r.2 i) else r.2 i = s i
  | .detach lookup link =>
    if lookup = (0, some i) then Detached link (s i) r.1 (r.2 i) else r.2 i = s i

end

/-! ### The loops -/

variable {l : List LxafsLinkinfo}

/-- The buffers are compared up to their ends. -/
theorem LxafsLinkinfo.strncmp_eq_zero_iff (a b : LxafsLinkinfo) :
    strncmp a.name b.name lxMaxpath = 0 ↔ a.chars = b.chars := by
  have htake (a : LxafsLinkinfo) : (str a.name).take lxMaxpath = a.chars :=
    List.take_of_length_le ((strlen_le a.name).trans a.length_name.le)
  rw [CString.strncmp_eq_zero_iff, htake, htake]

theorem addLoop_eq (linkinfo : LxafsLinkinfo) (l : List LxafsLinkinfo) :
    addLoop linkinfo l =
      if linkinfo.chars ∈ l.map LxafsLinkinfo.chars then negEBUSY else 0 := by
  induction l with
  | nil => rfl
  | cons lfo l ih =>
    simp only [addLoop, LxafsLinkinfo.strncmp_eq_zero_iff, ih, List.map_cons, List.mem_cons]
    by_cases h : lfo.chars = linkinfo.chars
    · rw [if_pos h, if_pos (.inl h.symm)]
    · simp only [if_neg h, Ne.symm h, false_or]

theorem detachLoop_eq (link : LxafsLinkinfo) (l : List LxafsLinkinfo) :
    detachLoop link l =
      (if link.chars ∈ l.map LxafsLinkinfo.chars then 0 else negENOENT,
        l.eraseP fun lfo => lfo.chars = link.chars) := by
  induction l with
  | nil => rfl
  | cons lfo l ih =>
    simp only [detachLoop, LxafsLinkinfo.strncmp_eq_zero_iff, ih, List.map_cons, List.mem_cons]
    by_cases h : lfo.chars = link.chars
    · rw [if_pos h, if_pos (.inl h.symm), List.eraseP_cons_of_pos (by simpa using h)]
    · simp only [if_neg h, Ne.symm h, false_or]
      rw [List.eraseP_cons_of_neg (by simpa using h)]

/-! ### One call -/

namespace InodeLinks

variable {i : InodeLinks}

theorem addLinkinfo_eq (linkinfo : LxafsLinkinfo) (tail : Bool) (i : InodeLinks) :
    i.addLinkinfo linkinfo tail =
      if linkinfo.chars ∈ i.names then (negEBUSY, i)
      else (0, { i with list := if tail then i.list ++ [linkinfo] else linkinfo :: i.list }) := by
  have hne : negEBUSY ≠ 0 := by decide
  rw [addLinkinfo, addLoop_eq, ← names]
  by_cases hmem : linkinfo.chars ∈ i.names
  · simp only [if_pos hmem, if_neg hne]
  · simp only [if_neg hmem, ↓reduceIte]

theorem added (linkinfo : LxafsLinkinfo) (tail : Bool) (i : InodeLinks) :
    Added linkinfo tail i (i.addLinkinfo linkinfo tail).1 (i.addLinkinfo linkinfo tail).2 := by
  have hne : negEBUSY ≠ 0 := by decide
  rw [addLinkinfo_eq]
  by_cases hmem : linkinfo.chars ∈ i.names
  · rw [if_pos hmem]
    exact ⟨iff_of_true rfl hmem, fun _ => rfl, fun hrc => absurd rfl hrc⟩
  · rw [if_neg hmem]
    exact ⟨iff_of_false hne.symm hmem, fun hrc => absurd hrc hne.symm, fun _ => ⟨rfl, rfl⟩⟩

theorem detach_eq (link : LxafsLinkinfo) (i : InodeLinks) :
    i.detach link =
      if link.chars ∈ i.names then
        (0, ⟨i.list.eraseP fun lfo => lfo.chars = link.chars, i.dirtyFlag ||| lxafsDirtyLinklist⟩)
      else (negENOENT, i) := by
  have hne : negENOENT ≠ 0 := by decide
  rw [detach, detachLoop_eq, ← names]
  by_cases hmem : link.chars ∈ i.names
  · simp only [if_pos hmem, ↓reduceIte]
  · have hnot : ∀ lfo ∈ i.list, lfo.chars ≠ link.chars := fun lfo hlfo heq =>
      hmem (List.mem_map.2 ⟨lfo, hlfo, heq⟩)
    rw [List.eraseP_of_forall_not (by simpa using hnot)]
    simp only [if_neg hmem, if_neg hne]

/-- If the names are different, the first entry with a name is the only one. -/
theorem detached (h : i.names.Nodup) (link : LxafsLinkinfo) :
    Detached link i (i.detach link).1 (i.detach link).2 := by
  rw [detach, detachLoop_eq]
  exact ⟨rfl, FirstMatch.eraseP_key_eq_filter h⟩

end InodeLinks

/-- A name that is accepted is a new one. -/
theorem Added.nodup {linkinfo : LxafsLinkinfo} {tail : Bool} {i i' : InodeLinks} {rc : ULONG}
    (hok : Added linkinfo tail i rc i') (h : i.names.Nodup) : i'.names.Nodup := by
  by_cases hrc : rc = negEBUSY
  · rw [hok.refused hrc]
    exact h
  · have hcons : (linkinfo.chars :: i.names).Nodup :=
      List.nodup_cons.2 ⟨mt hok.busy.2 hrc, h⟩
    rw [InodeLinks.names, (hok.accepted hrc).2]
    cases tail with
    | true =>
      have hperm : (i.names ++ [linkinfo.chars]).Perm (linkinfo.chars :: i.names) :=
        List.perm_append_singleton ..
      rw [if_pos rfl, List.map_append, List.map_singleton]
      exact hperm.nodup_iff.2 hcons
    | false => exact hcons

theorem Detached.nodup {link : LxafsLinkinfo} {i i' : InodeLinks} {rc : ULONG}
    (hok : Detached link i rc i') (h : i.names.Nodup) : i'.names.Nodup := by
  rw [InodeLinks.names, hok.list_eq]
  exact h.sublist (List.filter_sublist.map _)

/-! ### Runs -/

section

variable {ι : Type} [DecidableEq ι] {s₀ s s' : ι → InodeLinks} {i : ι} {a : LinkNameAct ι}

theorem detachLinkedFile_found (i : ι) (link : LxafsLinkinfo) (s : ι → InodeLinks) :
    detachLinkedFile (0, some i) link s =
      (((s i).detach link).1, Function.update s i ((s i).detach link).2) :=
  if_neg (not_not.2 rfl)

/-- Only the inode that is found changes. -/
theorem detachLinkedFile_snd_of_ne {lookup : ULONG × Option ι} (hi : lookup ≠ (0, some i))
    (link : LxafsLinkinfo) (s : ι → InodeLinks) : (detachLinkedFile lookup link s).2 i = s i := by
  obtain ⟨rc, found⟩ := lookup
  rw [detachLinkedFile]
  by_cases hrc : rc = 0
  · subst hrc
    rw [if_neg (not_not.2 rfl)]
    cases found with
    | none => rfl
    | some j => exact Function.update_of_ne (fun h => hi (by rw [h])) ..
  · rw [if_pos hrc]

/-- What a call makes of a link list with different names. -/
theorem linkCallOk_of_nodup (h : (s i).names.Nodup) (a : LinkNameAct ι) : LinkCallOk i s a := by
  cases a with
  | add inode linkinfo tail =>
    by_cases hi : inode = i
    · subst hi
      rw [LinkCallOk, LinkNameAct.run]
      simp only [↓reduceIte, Function.update_self]
      exact (s inode).added linkinfo tail
    · exact (if_neg hi).mpr (Function.update_of_ne (Ne.symm hi) ..)
  | detach lookup link =>
    by_cases hi : lookup = (0, some i)
    · subst hi
      rw [LinkCallOk, LinkNameAct.run, detachLinkedFile_found]
      simp only [↓reduceIte, Function.update_self]
      exact InodeLinks.detached h link
    · exact (if_neg hi).mpr (detachLinkedFile_snd_of_ne hi link s)

theorem LinkCallOk.nodup (hok : LinkCallOk i s a) (h : (s i).names.Nodup) :
    ((a.run s).2 i).names.Nodup := by
  cases a with
  | add inode linkinfo tail =>
    by_cases hi : inode = i
    · exact ((if_pos hi).mp hok).nodup h
    · have heq := (if_neg hi).mp hok
      rwa [heq]
  | detach lookup link =>
    by_cases hi : lookup = (0, some i)
    · exact ((if_pos hi).mp hok).nodup h
    · have heq := (if_neg hi).mp hok
      rwa [heq]

/-- **Names stay different.**  If the names in the list of an inode are different, they are so after
any calls, for this inode and others; a name is refused exactly if it is in the list, which then
does not change, and taking out a name leaves the other entries in their order. -/
theorem linkNames_run (h : (s i).names.Nodup) (as : List (LinkNameAct ι)) :
    (linkNameMachine s).Always (fun s => (s i).names.Nodup) s as ∧
      (linkNameMachine s).Along (LinkCallOk i) s as := by
  have hstep (t : ι → InodeLinks) (a : LinkNameAct ι) (t' : ι → InodeLinks)
      (ht : (t i).names.Nodup) (hok : LinkCallOk i t a)
      (hrun : (linkNameMachine s).step t a = some t') : (t' i).names.Nodup := by
    cases hrun
    exact hok.nodup ht
  have halong : (linkNameMachine s).Along (LinkCallOk i) s as :=
    Machine.along_of_along (fun t a ht _ => linkCallOk_of_nodup ht a)
      (fun t a t' ht _ hrun => hstep t a t' ht (linkCallOk_of_nodup ht a) hrun) h
      (Machine.along_anyStep s as)
  exact ⟨Machine.always_of_along (fun _ ht => ht) hstep h halong, halong⟩

end

/-- An inode without links. -/
def noLinks : InodeLinks := ⟨[], 0⟩

/-- `linkNames_run` for the names `C:/a` and `C:/b`, of which the second is added twice and then
taken out. -/
theorem linkNames_sample :
    (linkNameMachine fun _ : Unit => noLinks).Always (fun s => (s ()).names.Nodup)
        (fun _ => noLinks)
        [.add () entryA.path.linkinfo false, .add () entryB.path.linkinfo true,
          .add () entryB.path.linkinfo false, .detach (0, some ()) entryB.path.linkinfo] :=
  (linkNames_run (s := fun _ => noLinks) (i := ()) List.nodup_nil _).1

/-! ### Names that are paths -/

/-- The inode with its names in buffers. -/
def LinkedInode.links (i : LinkedInode) : InodeLinks :=
  ⟨i.list.map PathName.linkinfo, i.dirtyFlag⟩

theorem PathName.chars_linkinfo (n : PathName) : n.linkinfo.chars = n.chars := n.str_copy

theorem PathName.chars_linkinfo_inj {m n : PathName} :
    m.linkinfo.chars = n.linkinfo.chars ↔ m = n := by
  rw [chars_linkinfo, chars_linkinfo, mk.injEq]

theorem mem_names_links_iff (i : LinkedInode) (n : PathName) :
    n.linkinfo.chars ∈ i.links.names ↔ n ∈ i.list := by
  rw [InodeLinks.names, LinkedInode.links, List.map_map, List.mem_map]
  constructor
  · rintro ⟨m, hm, heq⟩
    rwa [← PathName.chars_linkinfo_inj.1 heq]
  · intro hn
    exact ⟨n, hn, rfl⟩

/-- `lxafs_add_linkinfo` for a path. -/
theorem links_addLinkinfo (i : LinkedInode) (n : PathName) (tail : Bool) :
    i.links.addLinkinfo n.linkinfo tail =
      ((i.addLinkinfo n tail).1, (i.addLinkinfo n tail).2.links) := by
  rw [InodeLinks.addLinkinfo_eq, LinkedInode.addLinkinfo]
  by_cases hn : n ∈ i.list
  · rw [if_pos ((mem_names_links_iff i n).2 hn), if_pos (listed_iff.2 hn)]
  · rw [if_neg (mt (mem_names_links_iff i n).1 hn), if_neg (mt listed_iff.1 hn)]
    cases tail with
    | true => simp [LinkedInode.links]
    | false => rfl

/-- `lxafs_detach_linked_file` for a path, when the master name leads to the inode. -/
theorem links_detachLinkedFile (i : LinkedInode) (n : PathName) :
    i.links.detach n.linkinfo =
      ((lxafsDetachLinkedFile .theInode n i).1, (lxafsDetachLinkedFile .theInode n i).2.links) := by
  have hlist : i.links.list.eraseP (fun lfo => lfo.chars = n.linkinfo.chars) =
      (i.list.eraseP fun lfo => strncmp lfo.chars n.chars lxMaxpath = 0).map PathName.linkinfo := by
    rw [LinkedInode.links, List.eraseP_map]
    congr 2
    funext lfo
    simp only [Function.comp_apply, PathName.chars_linkinfo_inj, PathName.strncmp_eq_zero_iff]
  rw [InodeLinks.detach_eq, hlist, lxafsDetachLinkedFile]
  by_cases hn : n ∈ i.list
  · rw [if_pos ((mem_names_links_iff i n).2 hn)]
    simp only [if_pos (listed_iff.2 hn)]
    rfl
  · rw [if_neg (mt (mem_names_links_iff i n).1 hn)]
    simp only [if_neg (mt listed_iff.1 hn)]

end LxApi32
