import LxApi32.Lxafs.HardLink
import LxApi32.Lib.Machine
import Mathlib.Data.Finset.Dedup

/-!
# Counting the links of a file

Runs of `iod_link` and `iod_unlink` that all return `0`, from a file with one name.  `iod_link`
counts the inode's links up before it writes the new dummy file and looks up the master name to add
the new name to its list, and returns `0` if that fails.  `iod_unlink` counts down only when the
name is not the master name, and without looking whether the name was found in the list.

* `LinkHistory.always_booked_iff` : along a run `i_nlink` is one more than the length of the list
  and the names of the inode are those that were linked and not unlinked, exactly if every name
  that is linked is added to the list, and every name that is unlinked is not the master name and is
  taken off the list.
* `LinkHistory.not_booked_master` : unlinking the master name of a file with a second name.
-/

namespace LxApi32

open CString

/-- The links of a file, and the names under which its users know it. -/
structure LinkHistory (κ : Type) where
  /-- The state. -/
  state : LinkState κ
  /-- The names that were linked and not yet unlinked. -/
  linked : Finset PathName

namespace LinkHistory

variable {κ : Type} [DecidableEq κ]

/-- Calls that return `0`.  The dentry that `iod_unlink` is called with is one of the inode. -/
def machine (key : PathName → κ) (s₀ : LinkHistory κ) : Machine (LinkHistory κ) LinkCall where
  init := s₀
  step s
    | .link d r =>
      let res := iodLink key d r s.state
      if res.1 = 0 then some ⟨res.2, insert d.path s.linked⟩ else none
    | .unlink d r =>
      let res := iodUnlink key d r s.state
      if d.path ∈ s.linked ∧ res.1 = 0 then some ⟨res.2, s.linked.erase d.path⟩ else none

/-- The inode has one name, and the host has its file. -/
structure OneName (key : PathName → κ) (s : LinkHistory κ) : Prop where
  nlink : s.state.inode.nlink = 1
  list : s.state.inode.list = []
  linked : s.linked = {s.state.inode.name}
  host : (s.state.host (key s.state.inode.name)).isSome

/-- The link count and the names of the inode are right. -/
structure Booked (s : LinkHistory κ) : Prop where
  nlink : s.state.inode.nlink.toNat = 1 + s.state.inode.list.length
  nodup : s.state.inode.names.Nodup
  names : s.state.inode.names.toFinset = s.linked

/-- The names of the inode have host files of their own. -/
structure OnHost (key : PathName → κ) (s : LinkState κ) : Prop where
  nodup : (s.inode.names.map key).Nodup
  isSome : ∀ n ∈ s.inode.names, (s.host (key n)).isSome

/-- A new name is added to the list; a name that is unlinked is not the master name, and the master
name leads to the inode.  In both cases the name is the one in `d_iname`. -/
def Tracks (s : LinkHistory κ) : LinkCall → Prop
  | .link d r => d.linkName = d.path ∧ r.child.opened ∧ r.lookup = .theInode ∧ r.allocInfo
  | .unlink d r =>
    d.linkName = d.path ∧ d.linkName ≠ s.state.inode.name ∧ r.lookup = .theInode

end LinkHistory

/-- A name of less than `DNAME_INLINE_LEN` characters stands in `d_iname`. -/
theorem LinkDentry.linkName_eq_path {d : LinkDentry} (h : d.name.length < dnameInlineLen) :
    d.linkName = d.path := by
  have hiname := d.inline h
  rw [linkName, path]
  congr

namespace LinkHistory

variable {κ : Type} [DecidableEq κ] {key : PathName → κ} {s s' : LinkHistory κ} {c : LinkCall}

/-! ### What a call does to the inode -/

/-- A call of `iod_link` that returns `0` counts the link, and adds it to the list in the end. -/
theorem link_cases {s₀ : LinkHistory κ} {d : LinkDentry} {r : LinkResults}
    (hstep : (machine key s₀).step s (.link d r) = some s') :
    s'.linked = insert d.path s.linked ∧ s'.state.inode.name = s.state.inode.name ∧
      ¬ lxMaxLinks - 1 < s.state.inode.nlink ∧
      s'.state.inode.nlink = s.state.inode.nlink + 1 ∧
      s.state.host (key d.linkName) = none ∧
      (∃ f, s'.state.host = Function.update s.state.host (key d.linkName) (some f)) ∧
      s'.state.inode.list =
        if r.child.opened ∧ r.lookup = .theInode ∧ r.allocInfo ∧ d.linkName ∉ s.state.inode.list
        then d.linkName :: s.state.inode.list else s.state.inode.list := by
  simp only [machine, Option.ite_none_right_eq_some, Option.some.injEq] at hstep
  obtain ⟨hrc, rfl⟩ := hstep
  rcases iodLink_cases key d r s.state with ⟨hne, -⟩ | ⟨-, hlinks, hnone, f, hs⟩
  · exact absurd hrc hne
  rw [hs, lxafsAttachLinkedFile_eq, ← ite_and]
  by_cases hattach : r.child.opened ∧ r.lookup = .theInode ∧ r.allocInfo ∧
      d.linkName ∉ (simpleLink d s.state).inode.list
  · rw [if_pos hattach]
    exact ⟨rfl, rfl, hlinks, rfl, hnone, ⟨f, rfl⟩, (if_pos hattach).symm⟩
  · rw [if_neg hattach]
    exact ⟨rfl, rfl, hlinks, rfl, hnone, ⟨f, rfl⟩, (if_neg hattach).symm⟩

/-- A call of `iod_unlink` that returns `0`, by the name it is called with. -/
theorem unlink_cases {s₀ : LinkHistory κ} {d : LinkDentry} {r : UnlinkResults}
    (hstep : (machine key s₀).step s (.unlink d r) = some s') :
    (d.path ∈ s.linked ∧ s'.linked = s.linked.erase d.path) ∧
      ((∃ lfo, d.linkName = s.state.inode.name ∧ s.state.inode.list.getLast? = some lfo ∧
          s'.state.inode.nlink = s.state.inode.nlink ∧
          s'.state.inode.list = s.state.inode.list.dropLast) ∨
        (d.linkName = s.state.inode.name ∧ s.state.inode.list = [] ∧
          s'.state.inode = s.state.inode) ∨
        (d.linkName ≠ s.state.inode.name ∧ s'.state.inode.name = s.state.inode.name ∧
          s'.state.inode.nlink = s.state.inode.nlink - 1 ∧
          s'.state.inode.list =
            (if r.lookup = .theInode then s.state.inode.list.erase d.linkName
            else s.state.inode.list) ∧
          s'.state.host = Function.update s.state.host (key d.linkName) none)) := by
  simp only [machine, Option.ite_none_right_eq_some, Option.some.injEq] at hstep
  obtain ⟨⟨hmem, hrc⟩, rfl⟩ := hstep
  refine ⟨⟨hmem, rfl⟩, ?_⟩
  by_cases halloc : r.allocMaster ∧ r.allocLink
  swap
  · rw [iodUnlink_of_not_alloc halloc] at hrc
    exact absurd (show negENOENT = 0 from hrc) (by decide)
  by_cases hname : d.linkName = s.state.inode.name
  · cases hlast : s.state.inode.list.getLast? with
    | some lfo =>
      rw [iodUnlink_of_master halloc hname hlast] at hrc ⊢
      rw [if_pos ((accessRc_eq_zero_iff _).1 hrc)]
      exact .inl ⟨lfo, hname, rfl, rfl, rfl⟩
    | none =>
      have hlist := List.getLast?_eq_none_iff.1 hlast
      rw [iodUnlink_of_only halloc hname hlist]
      exact .inr (.inl ⟨hname, hlist, rfl⟩)
  · rw [iodUnlink_of_child halloc hname] at hrc ⊢
    rw [if_pos ((accessRc_eq_zero_iff _).1 hrc), lxafsDetachLinkedFile_eq]
    refine .inr (.inr ⟨hname, ?_, ?_, ?_, rfl⟩)
    · split_ifs <;> rfl
    · simp only [simpleUnlink]
      split_ifs <;> rfl
    · by_cases hlookup : r.lookup = .theInode
      · rw [if_pos hlookup]
        by_cases hlink : d.linkName ∈ s.state.inode.list
        · rw [if_pos ⟨hlookup, hlink⟩]
          rfl
        · rw [if_neg fun h => hlink h.2, List.erase_of_not_mem hlink]
          rfl
      · rw [if_neg hlookup, if_neg fun h => hlookup h.1]
        rfl

theorem toNat_countUp {n : ULONG} (h : ¬ lxMaxLinks - 1 < n) : (n + 1).toNat = n.toNat + 1 := by
  have hle : n.toNat ≤ 15 := BitVec.not_lt.1 h
  rw [BitVec.toNat_add]
  simp
  omega

theorem toNat_countDown {n : ULONG} (h : 0 < n.toNat) : (n - 1).toNat = n.toNat - 1 := by
  rw [BitVec.toNat_sub]
  simp
  omega

/-- A name more in the list. -/
theorem names_perm_cons {i i' : LinkedInode} {n : PathName} (hname : i'.name = i.name)
    (hlist : i'.list.Perm (n :: i.list)) : i'.names.Perm (n :: i.names) := by
  rw [LinkedInode.names, LinkedInode.names, hname]
  exact (hlist.cons _).trans (.swap ..)

/-! ### Calls that keep the books -/

/-- A new name is added to the names. -/
theorem booked_link {s₀ : LinkHistory κ} {d : LinkDentry} {r : LinkResults} (hb : Booked s)
    (ho : OnHost key s.state) (hg : Tracks s (.link d r))
    (hstep : (machine key s₀).step s (.link d r) = some s') : Booked s' ∧ OnHost key s'.state := by
  obtain ⟨hlinked, hname, hlinks, hnlink, hnone, ⟨f, hhost⟩, hlist⟩ := link_cases hstep
  obtain ⟨hpath, hopened, hlookup, halloc⟩ := hg
  -- the name has no host file yet, and so it is new
  have hkey : key d.linkName ∉ s.state.inode.names.map key := by
    intro hmem
    obtain ⟨n, hn, hk⟩ := List.mem_map.1 hmem
    have := ho.isSome n hn
    rw [hk, hnone] at this
    cases this
  have hnew : d.linkName ∉ s.state.inode.names := fun h => hkey (List.mem_map_of_mem h)
  rw [if_pos ⟨hopened, hlookup, halloc, fun h => hnew (List.mem_cons_of_mem _ h)⟩] at hlist
  have hperm := names_perm_cons hname (.of_eq hlist)
  refine ⟨⟨?_, ?_, ?_⟩, ?_, ?_⟩
  · rw [hnlink, toNat_countUp hlinks, hb.nlink, hlist, List.length_cons, Nat.add_assoc]
  · exact hperm.nodup_iff.2 (List.nodup_cons.2 ⟨hnew, hb.nodup⟩)
  · rw [List.toFinset_eq_of_perm _ _ hperm, List.toFinset_cons, hb.names, hlinked, hpath]
  · exact (hperm.map key).nodup_iff.2 (List.nodup_cons.2 ⟨hkey, ho.nodup⟩)
  · intro n hn
    rw [hhost]
    by_cases hk : key n = key d.linkName
    · rw [hk, Function.update_self]
      rfl
    · rw [Function.update_of_ne hk]
      rcases List.mem_cons.1 (hperm.mem_iff.1 hn) with rfl | hn
      · exact absurd rfl hk
      · exact ho.isSome n hn

/-- A name of the list is taken off it. -/
theorem booked_unlink {s₀ : LinkHistory κ} {d : LinkDentry} {r : UnlinkResults} (hb : Booked s)
    (ho : OnHost key s.state) (hg : Tracks s (.unlink d r))
    (hstep : (machine key s₀).step s (.unlink d r) = some s') :
    Booked s' ∧ OnHost key s'.state := by
  obtain ⟨⟨hmem, hlinked⟩, hcases⟩ := unlink_cases hstep
  obtain ⟨hpath, hne, hlookup⟩ := hg
  rcases hcases with ⟨lfo, hmaster, -⟩ | ⟨hmaster, -⟩ | ⟨-, hname, hnlink, hlist, hhost⟩
  · exact absurd hmaster hne
  · exact absurd hmaster hne
  rw [if_pos hlookup] at hlist
  have hlink : d.linkName ∈ s.state.inode.list := by
    rw [← hpath, ← hb.names, List.mem_toFinset] at hmem
    exact (List.mem_cons.1 hmem).resolve_left hne
  have hperm := names_perm_cons hname.symm (hlist ▸ List.perm_cons_erase hlink)
  have hnodup := List.nodup_cons.1 (hperm.nodup_iff.1 hb.nodup)
  have hkeys := List.nodup_cons.1 ((hperm.map key).nodup_iff.1 ho.nodup)
  refine ⟨⟨?_, hnodup.2, ?_⟩, hkeys.2, ?_⟩
  · have hlen := List.length_erase_of_mem hlink
    have hpos := List.length_pos_of_mem hlink
    rw [hnlink, toNat_countDown (by rw [hb.nlink]; omega), hb.nlink, hlist, hlen]
    omega
  · rw [hlinked, ← hb.names, List.toFinset_eq_of_perm _ _ hperm, List.toFinset_cons, ← hpath,
      Finset.erase_insert (mt List.mem_toFinset.1 hnodup.1)]
  · intro n hn
    have hk : key n ≠ key d.linkName := fun h => hkeys.1 (h ▸ List.mem_map_of_mem hn)
    rw [hhost, Function.update_of_ne hk]
    exact ho.isSome n (hperm.mem_iff.2 (List.mem_cons_of_mem _ hn))

/-! ### Calls that do not -/

/-- A link that is counted is in the list, if the count is right after it. -/
theorem tracks_link {s₀ : LinkHistory κ} {d : LinkDentry} {r : LinkResults} (hb : Booked s)
    (hb' : Booked s') (hstep : (machine key s₀).step s (.link d r) = some s') :
    Tracks s (.link d r) := by
  obtain ⟨hlinked, hname, hlinks, hnlink, -, -, hlist⟩ := link_cases hstep
  have hlen : s'.state.inode.list.length = s.state.inode.list.length + 1 := by
    have := hb'.nlink
    rw [hnlink, toNat_countUp hlinks, hb.nlink] at this
    omega
  split_ifs at hlist with hattach
  swap
  · rw [hlist] at hlen
    omega
  obtain ⟨hopened, hlookup, halloc, -⟩ := hattach
  refine ⟨?_, hopened, hlookup, halloc⟩
  -- the new name is the one that was linked
  have hperm := names_perm_cons hname (.of_eq hlist)
  have hnew := (List.nodup_cons.1 (hperm.nodup_iff.1 hb'.nodup)).1
  have hmem : d.linkName ∈ s'.linked := by
    rw [← hb'.names, List.mem_toFinset]
    exact hperm.mem_iff.2 List.mem_cons_self
  rw [hlinked, Finset.mem_insert, ← hb.names, List.mem_toFinset] at hmem
  exact hmem.resolve_right hnew

/-- A link that is counted down is off the list, if the count is right after it. -/
theorem tracks_unlink {s₀ : LinkHistory κ} {d : LinkDentry} {r : UnlinkResults} (hb : Booked s)
    (hb' : Booked s') (hstep : (machine key s₀).step s (.unlink d r) = some s') :
    Tracks s (.unlink d r) := by
  obtain ⟨⟨hmem, hlinked⟩, hcases⟩ := unlink_cases hstep
  have hgone : d.path ∉ s'.state.inode.names := by
    rw [← List.mem_toFinset, hb'.names, hlinked]
    exact Finset.notMem_erase d.path s.linked
  have hold : d.path ∈ s.state.inode.names := by
    rwa [← List.mem_toFinset, hb.names]
  rcases hcases with ⟨lfo, -, hlast, hnlink, hlist⟩ | ⟨-, hlist, hinode⟩ |
    ⟨hne, hname, hnlink, hlist, -⟩
  · -- one name less, and the same count
    have hpos := List.length_pos_of_mem (List.mem_of_getLast? hlast)
    have hlen := hb'.nlink
    rw [hnlink, hb.nlink, hlist, List.length_dropLast] at hlen
    omega
  · rw [hinode] at hgone
    exact absurd hold hgone
  · by_cases hlookup : r.lookup = .theInode
    · rw [if_pos hlookup] at hlist
      refine ⟨?_, hne, hlookup⟩
      by_contra hpath
      apply hgone
      rw [LinkedInode.names, hname, hlist]
      rcases List.mem_cons.1 hold with heq | hin
      · exact heq ▸ List.mem_cons_self
      · exact List.mem_cons_of_mem _ ((List.mem_erase_of_ne (Ne.symm hpath)).2 hin)
    · -- the same names
      rw [if_neg hlookup] at hlist
      rw [LinkedInode.names, hname, hlist] at hgone
      exact absurd hold hgone

omit [DecidableEq κ] in
/-- The start. -/
theorem OneName.booked (h : OneName key s) : Booked s ∧ OnHost key s.state := by
  refine ⟨⟨?_, ?_, ?_⟩, ?_, ?_⟩
  · rw [h.nlink, h.list]
    rfl
  · rw [LinkedInode.names, h.list]
    exact List.nodup_singleton _
  · rw [LinkedInode.names, h.list, h.linked]
    rfl
  · rw [LinkedInode.names, h.list]
    exact List.nodup_singleton _
  · intro n hn
    rw [LinkedInode.names, h.list, List.mem_singleton] at hn
    rw [hn]
    exact h.host

/-- **The books of a file.**  Along a run of calls that return `0` the link count and the names of
the inode are right exactly if every call tracks its name. -/
theorem always_booked_iff {s₀ : LinkHistory κ} (h₀ : OneName key s₀) {as : List LinkCall}
    (h : (machine key s₀).exec s₀ as = some s) :
    (machine key s₀).Always Booked s₀ as ↔ (machine key s₀).Along Tracks s₀ as := by
  refine Machine.always_iff_along (I := fun s => Booked s ∧ OnHost key s.state)
    (fun _ hI => hI.1) ?_ ?_ h₀.booked h
  · intro s c s' hI hg hstep
    cases c with
    | link d r => exact booked_link hI.1 hI.2 hg hstep
    | unlink d r => exact booked_unlink hI.1 hI.2 hg hstep
  · intro s c s' hI hstep hb'
    cases c with
    | link d r => exact tracks_link hI.1 hb' hstep
    | unlink d r => exact tracks_unlink hI.1 hb' hstep

/-! ### Two runs -/

/-- The file `C:/a`. -/
def sampleFile : LinkHistory Bytes where
  state := {
    inode := ⟨1, 1, false, entryA.path, [], 0⟩
    dentries := fun _ => ⟨1, true, true⟩
    host := Function.update (fun _ => none) entryA.path.chars (some ⟨[1], fun _ => none⟩) }
  linked := {entryA.path}

/-- `C:/b` is linked to it, and everything succeeds. -/
def linkB : LinkCall := .link entryB ⟨true, true, 0, ⟨true, true, 0, true⟩, .theInode, true⟩

theorem oneName_sampleFile : OneName PathName.chars sampleFile := ⟨rfl, rfl, rfl, rfl⟩

/-- `always_booked_iff` for linking `C:/b` and unlinking it. -/
theorem always_booked_linkUnlink :
    (machine PathName.chars sampleFile).Always Booked sampleFile
      [linkB, .unlink entryB (sampleResults .done 0)] := by
  obtain ⟨s, hs⟩ := Option.isSome_iff_exists.1
    (rfl : ((machine PathName.chars sampleFile).exec sampleFile
      [linkB, .unlink entryB (sampleResults .done 0)]).isSome = true)
  refine (always_booked_iff oneName_sampleFile hs).2 ⟨⟨rfl, rfl, rfl, rfl⟩, ?_⟩
  intro s₁ hs₁
  refine ⟨⟨rfl, ?_, rfl⟩, fun _ _ => trivial⟩
  rw [(link_cases hs₁).2.1]
  decide

/-- `C:/b` is linked to the file, and then the master name `C:/a` is unlinked.  The file has one
name left, and its link count is `2`. -/
theorem not_booked_master :
    OneName PathName.chars sampleFile ∧
      ∃ s, (machine PathName.chars sampleFile).exec sampleFile
          [linkB, .unlink entryA (sampleResults .done 0)] = some s ∧
        s.state.inode.names = [entryB.path] ∧ s.linked = {entryB.path} ∧
        s.state.inode.nlink = 2 ∧ ¬ Booked s := by
  refine ⟨oneName_sampleFile, _, rfl, rfl, rfl, rfl, ?_⟩
  intro h
  exact absurd h.nlink (by decide)

end LinkHistory

end LxApi32
