import LxApi32.Lib.Machine
import LxApi32.Lib.Ranges
import LxApi32.Memory.MemObjs
import Mathlib.Data.List.Nodup

/-!
# The page allocator

`LX_alloc_num_pages` makes an entry of `lx_pages` for a block of pages, with a count for each page.
`__free_pages` takes one from the counts of a run of pages, and releases the block and the entry
when all counts of the entry are 0.  Pages are found by the address of their `struct page`, or by an
address in them, by going through all pages of all entries.

* `PageSys.always_accounted_isolated` : when every page is freed once, in runs inside of its entry,
  the block of an entry is released exactly once, when its last page has been freed; the address of
  every page in an entry leads to this page, and other addresses are not valid.  No step touches
  another entry than that of the pages it frees.

Every entry is known by a number, and a page by that of its entry and its index there.  The block of
an entry is an object of C, so the address behind its end is an address as well.
-/

namespace LxApi32

/-- A `struct page*`: the entry and the index. -/
abbrev PagePtr := ℕ × ℕ

/-- `struct page` -/
structure LxPage where
  /-- `count` -/
  count : ℤ
  /-- `virtual` -/
  virtual : ULONG
  deriving DecidableEq, Repr

/-- `struct lx_pg_entry` -/
structure LxPgEntry where
  /-- Its number. -/
  lpe : ℕ
  /-- `num_pages` -/
  numPages : ULONG
  /-- `gfp_mask` -/
  gfpMask : ULONG
  /-- `start` -/
  start : ULONG
  /-- `pages` -/
  pages : List LxPage
  deriving DecidableEq, Repr

/-- The entry that `LX_alloc_num_pages` makes. -/
def newPgEntry (lpe : ℕ) (gfpMask numPages start : ULONG) : LxPgEntry where
  lpe
  numPages
  gfpMask
  start
  pages := (List.range numPages.toNat).map fun i => ⟨1, start + BitVec.ofNat 32 i * pageSize⟩

/-- `LX_get_lpe_from_page`: the entry and the index. -/
def lxGetLpeFromPage (pg : PagePtr) (lxPages : List LxPgEntry) : Option (LxPgEntry × ℕ) :=
  lxPages.findSome? fun lpe =>
    ((List.range lpe.numPages.toNat).find? fun i => (lpe.lpe, i) = pg).map fun i => (lpe, i)

/-- The page is the `i`-th one from `start` on. -/
def InPage (start addr : ULONG) (i : ℕ) : Prop :=
  start + BitVec.ofNat 32 i * pageSize ≤ addr ∧ addr < start + BitVec.ofNat 32 (i + 1) * pageSize

instance (start addr : ULONG) (i : ℕ) : Decidable (InPage start addr i) :=
  inferInstanceAs (Decidable (_ ∧ _))

/-- `LX_get_lpe_from_addr` -/
def lxGetLpeFromAddr (addr : ULONG) (lxPages : List LxPgEntry) : Option (LxPgEntry × ℕ) :=
  lxPages.findSome? fun lpe =>
    ((List.range lpe.numPages.toNat).find? fun i => InPage lpe.start addr i).map fun i => (lpe, i)

/-- `LX_virt_to_page` -/
def lxVirtToPage (kaddr : ULONG) (lxPages : List LxPgEntry) : Option PagePtr :=
  (lxGetLpeFromAddr kaddr lxPages).map fun r => (r.1.lpe, r.2)

/-- `LX_virt_addr_valid` -/
def lxVirtAddrValid (kaddr : ULONG) (lxPages : List LxPgEntry) : ℤ :=
  if (lxVirtToPage kaddr lxPages).isSome then 1 else 0

/-- The entry with other counts. -/
def LxPgEntry.setPages (lpe : ℕ) (pages : List LxPage) (e : LxPgEntry) : LxPgEntry :=
  if e.lpe = lpe then { e with pages } else e

/-- The loop of `atomic_dec`. -/
def decCounts (index num : ℕ) (pages : List LxPage) : List LxPage :=
  pages.mapIdx fun i p => if index ≤ i ∧ i < index + num then { p with count := p.count - 1 } else p

/-- What happens. -/
inductive PageAct
  /-- `LX_alloc_num_pages`, and `__alloc_pages` with `1<<order` pages; `entry` tells whether there
  is memory for the entry, and `start` is where the block is. -/
  | alloc (gfpMask numPages : ULONG) (entry : Bool) (start : Option ULONG)
  /-- `__free_pages` -/
  | free (page : PagePtr) (order : ℕ)
  deriving DecidableEq, Repr

/-- The state. -/
structure PageSys where
  /-- `lx_pages` -/
  lxPages : List LxPgEntry
  /-- How many pages every entry has that there ever was. -/
  sizes : List ℕ
  /-- The pages that have been freed. -/
  freed : List PagePtr
  /-- The entries whose blocks have been released. -/
  released : List ℕ
  deriving DecidableEq, Repr

namespace PageSys

/-- `LX_alloc_num_pages` -/
def lxAllocNumPages (s : PageSys) (gfpMask numPages : ULONG) (entry : Bool)
    (start : Option ULONG) : PageSys :=
  if entry = false then s
  else match start with
    | none => s
    | some start => { s with
      lxPages := newPgEntry s.sizes.length gfpMask numPages start :: s.lxPages
      sizes := s.sizes ++ [numPages.toNat] }

/-- The pages of a run. -/
def runPages (page : PagePtr) (order : ℕ) : List PagePtr :=
  (List.range (2 ^ order)).map fun i => (page.1, page.2 + i)

/-- `__free_pages` -/
def freePages (s : PageSys) (page : PagePtr) (order : ℕ) : Option PageSys :=
  match lxGetLpeFromPage page s.lxPages with
  | none => some s
  | some (lpe, index) =>
    -- It writes behind the pages.
    if lpe.numPages.toNat < index + 2 ^ order then none
    else
      let pages := decCounts index (2 ^ order) lpe.pages
      let s := { s with freed := s.freed ++ runPages page order }
      if ∀ p ∈ pages, p.count = 0 then
        some { s with
          lxPages := s.lxPages.filter fun e => e.lpe ≠ lpe.lpe
          released := s.released ++ [lpe.lpe] }
      else
        some { s with lxPages := s.lxPages.map (·.setPages lpe.lpe pages) }

/-- The step function. -/
def step (s : PageSys) : PageAct → Option PageSys
  | .alloc gfpMask numPages entry start => some (s.lxAllocNumPages gfpMask numPages entry start)
  | .free page order => s.freePages page order

/-- The machine of the page allocator. -/
def machine : Machine PageSys PageAct := ⟨⟨[], [], [], []⟩, step⟩

/-- The first address of the block of an entry. -/
def lo (e : LxPgEntry) : ℕ := e.start.toNat

/-- The address behind it. -/
def hi (e : LxPgEntry) : ℕ := e.start.toNat + 4096 * e.numPages.toNat

/-- A new block is an object apart from those of the entries; pages are freed once, in runs inside
of their entry. -/
def Orderly (s : PageSys) : PageAct → Prop
  | .alloc gfpMask numPages _ start => ∀ addr ∈ start,
    addr.toNat + 4096 * numPages.toNat < 2 ^ 32 ∧
      ∀ e ∈ s.lxPages, Ranges.Disj lo hi (newPgEntry s.sizes.length gfpMask numPages addr) e
  | .free page order => (∃ e ∈ s.lxPages, e.lpe = page.1 ∧ page.2 + 2 ^ order ≤ e.numPages.toNat) ∧
    ∀ pg ∈ runPages page order, pg ∉ s.freed

/-- Blocks are released when all their pages have been freed, and once. -/
structure Accounted (s : PageSys) : Prop where
  /-- An entry is released exactly when its last page has been freed. -/
  released : ∀ lpe n, s.sizes[lpe]? = some n →
    (lpe ∈ s.released ↔ 0 < n ∧ ∀ i < n, (lpe, i) ∈ s.freed)
  /-- It is released once. -/
  once : s.released.Nodup
  /-- Until then it is in the list. -/
  listed : ∀ lpe, (∃ e ∈ s.lxPages, e.lpe = lpe) ↔ lpe < s.sizes.length ∧ lpe ∉ s.released
  /-- An address in a page of an entry leads to the page. -/
  found : ∀ e ∈ s.lxPages, ∀ i < e.numPages.toNat, ∀ kaddr : ULONG,
    e.start.toNat + 4096 * i ≤ kaddr.toNat → kaddr.toNat < e.start.toNat + 4096 * (i + 1) →
      lxVirtToPage kaddr s.lxPages = some (e.lpe, i)
  /-- An address in no entry is not valid. -/
  invalid : ∀ kaddr : ULONG, (∀ e ∈ s.lxPages, ¬ (lo e ≤ kaddr.toNat ∧ kaddr.toNat < hi e)) →
    lxVirtAddrValid kaddr s.lxPages = 0

/-- The action writes to no other entry than the one whose pages it frees, and releases no other. -/
def Isolated (s : PageSys) (a : PageAct) : Prop :=
  ∃ s', s.step a = some s' ∧ match a with
    | .alloc .. => (∀ e ∈ s.lxPages, e ∈ s'.lxPages) ∧ s'.released = s.released
    | .free page _ => (∀ e ∈ s.lxPages, e.lpe ≠ page.1 → e ∈ s'.lxPages) ∧
      ∀ lpe ∈ s'.released, lpe ∈ s.released ∨ lpe = page.1

variable {s s' : PageSys} {e : LxPgEntry} {l : List LxPgEntry} {page : PagePtr} {order : ℕ}
  {start addr : ULONG} {a : PageAct}

/-! ### Finding pages -/

/-- A search through the entries that only one of them can answer. -/
theorem findSome?_eq_some {f : LxPgEntry → Option (LxPgEntry × ℕ)} {r : LxPgEntry × ℕ}
    {R : LxPgEntry → LxPgEntry → Prop} (hl : l.Pairwise R) (he : e ∈ l) (hr : f e = some r)
    (hnone : ∀ b, R b e → f b = none) : l.findSome? f = some r := by
  obtain ⟨front, back, rfl⟩ := List.append_of_mem he
  refine List.findSome?_eq_some_iff.2 ⟨front, e, back, rfl, hr, fun b hb => hnone b ?_⟩
  exact (List.pairwise_append.1 hl).2.2 b hb e List.mem_cons_self

/-- A page is found by its `struct page`. -/
theorem lxGetLpeFromPage_eq (hl : (l.map LxPgEntry.lpe).Nodup) (he : e ∈ l) {i : ℕ}
    (hi : i < e.numPages.toNat) : lxGetLpeFromPage (e.lpe, i) l = some (e, i) := by
  have hne : l.Pairwise fun a b => a.lpe ≠ b.lpe := List.pairwise_map.1 hl
  refine findSome?_eq_some hne he ?_ fun b hb => ?_
  · have hfind : (List.range e.numPages.toNat).find? (fun j => (e.lpe, j) = (e.lpe, i)) = some i :=
      @Ranges.find?_eq_some _ id (· + 1) _ _ _ _ (fun j _ => by simp; omega)
        (List.pairwise_lt_range.imp fun hlt => Ranges.Apart.disj (.inl hlt))
        (List.mem_range.2 hi) le_rfl (Nat.lt_succ_self i)
    rw [hfind]
    rfl
  · rw [Option.map_eq_none_iff, List.find?_eq_none]
    intro j _ hj
    exact hb (Prod.mk.inj (of_decide_eq_true hj)).1

/-- The addresses of a page of a block that ends below 4 GB. -/
theorem inPage_iff (hhi : hi e < 2 ^ 32) {i : ℕ} (hi : i < e.numPages.toNat) :
    InPage e.start addr i ↔
      e.start.toNat + 4096 * i ≤ addr.toNat ∧ addr.toNat < e.start.toNat + 4096 * (i + 1) := by
  have hsum (j : ℕ) (hj : j ≤ e.numPages.toNat) :
      (e.start + BitVec.ofNat 32 j * pageSize).toNat = e.start.toNat + 4096 * j := by
    have hlt : e.start.toNat + 4096 * j < 2 ^ 32 := by
      unfold PageSys.hi at hhi
      omega
    have hindex : (BitVec.ofNat 32 j).toNat = j := by
      rw [BitVec.toNat_ofNat, Nat.mod_eq_of_lt (by omega)]
    have hsize : pageSize.toNat = 4096 := rfl
    rw [BitVec.toNat_add, BitVec.toNat_mul, hindex, hsize]
    omega
  unfold InPage
  rw [BitVec.le_def, BitVec.lt_def, hsum i hi.le, hsum (i + 1) hi]

/-- An address in no page of an entry. -/
theorem find?_inPage_eq_none (hhi : hi e < 2 ^ 32)
    (h : ¬ (lo e ≤ addr.toNat ∧ addr.toNat < hi e)) :
    (List.range e.numPages.toNat).find? (fun i => InPage e.start addr i) = none := by
  rw [List.find?_eq_none]
  intro i hi hpage
  have hin := (inPage_iff hhi (List.mem_range.1 hi)).1 (of_decide_eq_true hpage)
  have hlt := List.mem_range.1 hi
  apply h
  unfold lo PageSys.hi
  omega

/-- **A page is found by the addresses in it.** -/
theorem lxVirtToPage_eq (hl : l.Pairwise (Ranges.Disj lo hi)) (hhi : ∀ e ∈ l, hi e < 2 ^ 32)
    (he : e ∈ l) {i : ℕ} (hi : i < e.numPages.toNat)
    (hle : e.start.toNat + 4096 * i ≤ addr.toNat)
    (hlt : addr.toNat < e.start.toNat + 4096 * (i + 1)) :
    lxVirtToPage addr l = some (e.lpe, i) := by
  have hfind : (List.range e.numPages.toNat).find? (fun j => InPage e.start addr j) = some i :=
    @Ranges.find?_eq_some _ (fun j => e.start.toNat + 4096 * j)
      (fun j => e.start.toNat + 4096 * (j + 1)) _ _ addr.toNat _
      (fun j hj => by rw [decide_eq_true_iff, inPage_iff (hhi e he) (List.mem_range.1 hj)])
      (List.pairwise_lt_range.imp fun hlt => Ranges.Apart.disj (.inl (by omega)))
      (List.mem_range.2 hi) hle hlt
  have hall : lxGetLpeFromAddr addr l = some (e, i) := by
    have hpair : l.Pairwise fun b c => PageSys.hi b < 2 ^ 32 ∧ Ranges.Disj lo PageSys.hi b c :=
      hl.imp_of_mem fun hb _ hdisj => ⟨hhi _ hb, hdisj⟩
    refine findSome?_eq_some hpair he ?_ fun b hb => ?_
    · rw [hfind]
      rfl
    · have hout : ¬ (lo b ≤ addr.toNat ∧ addr.toNat < PageSys.hi b) := by
        intro hin
        refine hb.2 addr.toNat hin.1 hin.2 ?_
        unfold lo PageSys.hi
        omega
      rw [find?_inPage_eq_none hb.1 hout]
      rfl
  rw [lxVirtToPage, hall]
  rfl

/-- An address in no entry leads to no page. -/
theorem lxVirtToPage_eq_none (hhi : ∀ e ∈ l, hi e < 2 ^ 32)
    (h : ∀ e ∈ l, ¬ (lo e ≤ addr.toNat ∧ addr.toNat < hi e)) : lxVirtToPage addr l = none := by
  rw [lxVirtToPage, Option.map_eq_none_iff, lxGetLpeFromAddr, List.findSome?_eq_none_iff]
  intro e he
  rw [find?_inPage_eq_none (hhi e he) (h e he)]
  rfl

/-! ### Counts -/

/-- The counts of an entry tell which of its pages have been freed. -/
structure Counts (freed : List PagePtr) (e : LxPgEntry) : Prop where
  /-- There is a count for each page. -/
  length : e.pages.length = e.numPages.toNat
  /-- The counts. -/
  count : ∀ (i : ℕ) (h : i < e.pages.length), e.pages[i].count = if (e.lpe, i) ∈ freed then 0 else 1

@[simp]
theorem mem_runPages {pg : PagePtr} :
    pg ∈ runPages page order ↔ pg.1 = page.1 ∧ page.2 ≤ pg.2 ∧ pg.2 < page.2 + 2 ^ order := by
  obtain ⟨lpe, i⟩ := pg
  unfold runPages
  rw [List.mem_map]
  constructor
  · rintro ⟨j, hj, heq⟩
    have hlt := List.mem_range.1 hj
    cases heq
    exact ⟨rfl, Nat.le_add_right .., Nat.add_lt_add_left hlt _⟩
  · rintro ⟨hlpe, hle, hlt⟩
    refine ⟨i - page.2, List.mem_range.2 (by omega), ?_⟩
    rw [Nat.add_sub_cancel' hle, ← hlpe]

theorem counts_newPgEntry {freed : List PagePtr} {lpe : ℕ} (hnew : ∀ pg ∈ freed, pg.1 ≠ lpe)
    (gfpMask numPages start : ULONG) : Counts freed (newPgEntry lpe gfpMask numPages start) where
  length := by simp [newPgEntry]
  count i h := by
    have hnot : (lpe, i) ∉ freed := fun hmem => hnew _ hmem rfl
    simp [newPgEntry, hnot]

/-- The counts after a run has been freed. -/
theorem Counts.decCounts (h : Counts s.freed e) (hpage : page.1 = e.lpe)
    (hrun : ∀ pg ∈ runPages page order, pg ∉ s.freed) :
    Counts (s.freed ++ runPages page order)
      { e with pages := decCounts page.2 (2 ^ order) e.pages } where
  length := by
    rw [LxApi32.decCounts, List.length_mapIdx]
    exact h.length
  count i hi := by
    have hi' : i < e.pages.length := by simpa [LxApi32.decCounts] using hi
    have hcount := h.count i hi'
    have hin : (e.lpe, i) ∈ runPages page order ↔ page.2 ≤ i ∧ i < page.2 + 2 ^ order := by
      rw [mem_runPages]
      exact and_iff_right hpage.symm
    simp only [LxApi32.decCounts, List.getElem_mapIdx, List.mem_append, hin]
    by_cases hmem : page.2 ≤ i ∧ i < page.2 + 2 ^ order
    · rw [if_neg (hrun _ (hin.2 hmem))] at hcount
      rw [if_pos hmem, if_pos (.inr hmem), hcount]
      rfl
    · rw [if_neg hmem, hcount]
      simp only [hmem, or_false]

/-- Other entries. -/
theorem Counts.of_ne (h : Counts s.freed e) (hpage : page.1 ≠ e.lpe) :
    Counts (s.freed ++ runPages page order) e where
  length := h.length
  count i hi := by
    have hnot : (e.lpe, i) ∉ runPages page order := fun hmem => hpage (mem_runPages.1 hmem).1.symm
    rw [h.count i hi]
    simp only [List.mem_append, hnot, or_false]

/-- All counts are 0 exactly if all pages have been freed. -/
theorem Counts.forall_zero_iff {freed : List PagePtr} (h : Counts freed e) :
    (∀ p ∈ e.pages, p.count = 0) ↔ ∀ i < e.numPages.toNat, (e.lpe, i) ∈ freed := by
  rw [← h.length]
  constructor
  · intro hall i hi
    have hzero := hall _ (List.getElem_mem hi)
    rw [h.count i hi] at hzero
    by_contra hnot
    rw [if_neg hnot] at hzero
    exact absurd hzero (by decide)
  · intro hall p hp
    obtain ⟨i, hi, rfl⟩ := List.getElem_of_mem hp
    rw [h.count i hi, if_pos (hall i hi)]

/-! ### The invariant -/

/-- What holds between calls. -/
structure Good (s : PageSys) : Prop where
  /-- The entries are different. -/
  nodup : (s.lxPages.map LxPgEntry.lpe).Nodup
  /-- They are of the sizes that were asked for. -/
  size : ∀ e ∈ s.lxPages, s.sizes[e.lpe]? = some e.numPages.toNat
  /-- They are not released. -/
  live : ∀ e ∈ s.lxPages, e.lpe ∉ s.released
  /-- Their counts are right. -/
  counts : ∀ e ∈ s.lxPages, Counts s.freed e
  /-- Some of their pages are not freed, if they have any. -/
  unfreed : ∀ e ∈ s.lxPages, 0 < e.numPages.toNat →
    ∃ i < e.numPages.toNat, (e.lpe, i) ∉ s.freed
  /-- Entries that are not released are in the list. -/
  listed : ∀ lpe < s.sizes.length, lpe ∉ s.released → ∃ e ∈ s.lxPages, e.lpe = lpe
  /-- Entries that are released have been freed. -/
  released : ∀ lpe ∈ s.released, ∃ n, s.sizes[lpe]? = some n ∧ 0 < n ∧ ∀ i < n, (lpe, i) ∈ s.freed
  /-- No entry is released twice. -/
  once : s.released.Nodup
  /-- Freed pages are of an entry. -/
  freed : ∀ pg ∈ s.freed, pg.1 < s.sizes.length
  /-- Blocks end below 4 GB. -/
  below : ∀ e ∈ s.lxPages, hi e < 2 ^ 32
  /-- They have no address in common. -/
  disj : s.lxPages.Pairwise (Ranges.Disj lo hi)

theorem Good.lt_length (h : Good s) (he : e ∈ s.lxPages) : e.lpe < s.sizes.length := by
  obtain ⟨hlt, -⟩ := List.getElem?_eq_some_iff.1 (h.size e he)
  exact hlt

theorem Good.accounted (h : Good s) : Accounted s where
  released lpe n hn := by
    refine ⟨fun hrel => ?_, fun ⟨hpos, hall⟩ => ?_⟩
    · obtain ⟨n', hn', hfreed⟩ := h.released lpe hrel
      cases hn.symm.trans hn'
      exact hfreed
    · by_contra hrel
      obtain ⟨hlt, -⟩ := List.getElem?_eq_some_iff.1 hn
      obtain ⟨e, he, rfl⟩ := h.listed lpe hlt hrel
      have hsize : e.numPages.toNat = n := Option.some.inj ((h.size e he).symm.trans hn)
      obtain ⟨i, hi, hnot⟩ := h.unfreed e he (hsize ▸ hpos)
      exact hnot (hall i (hsize ▸ hi))
  once := h.once
  listed lpe := by
    refine ⟨?_, fun ⟨hlt, hrel⟩ => h.listed lpe hlt hrel⟩
    rintro ⟨e, he, rfl⟩
    exact ⟨h.lt_length he, h.live e he⟩
  found e he i hi kaddr hle hlt := lxVirtToPage_eq h.disj h.below he hi hle hlt
  invalid kaddr hout := by
    rw [lxVirtAddrValid, lxVirtToPage_eq_none h.below hout]
    rfl

/-! ### Steps -/

theorem Good.alloc (h : Good s) {gfpMask numPages : ULONG} {entry : Bool} {start : Option ULONG}
    (hord : Orderly s (.alloc gfpMask numPages entry start)) :
    Good (s.lxAllocNumPages gfpMask numPages entry start) := by
  unfold lxAllocNumPages
  split_ifs
  · exact h
  · cases start with
    | none => exact h
    | some addr =>
      obtain ⟨hbelow, hdisj⟩ := hord addr rfl
      have hfresh : s.sizes.length ∉ s.lxPages.map LxPgEntry.lpe := by
        intro hmem
        obtain ⟨e, he, heq⟩ := List.mem_map.1 hmem
        exact absurd heq (h.lt_length he).ne
      have hfreed : ∀ pg ∈ s.freed, pg.1 ≠ s.sizes.length := fun pg hpg => (h.freed pg hpg).ne
      refine ⟨?_, ?_, ?_, ?_, ?_, ?_, ?_, h.once, ?_, ?_, ?_⟩
      · exact List.nodup_cons.2 ⟨hfresh, h.nodup⟩
      · refine List.forall_mem_cons.2 ⟨List.getElem?_concat_length, fun e he => ?_⟩
        exact List.getElem?_append_left (h.lt_length he) ▸ h.size e he
      · refine List.forall_mem_cons.2 ⟨fun hrel => ?_, h.live⟩
        obtain ⟨n, hn, -⟩ := h.released _ hrel
        obtain ⟨hlt, -⟩ := List.getElem?_eq_some_iff.1 hn
        exact absurd hlt (Nat.lt_irrefl _)
      · exact List.forall_mem_cons.2 ⟨counts_newPgEntry hfreed .., h.counts⟩
      · refine List.forall_mem_cons.2 ⟨fun hpos => ⟨0, hpos, fun hmem => ?_⟩, h.unfreed⟩
        exact hfreed _ hmem rfl
      · intro lpe hlt hrel
        rw [List.length_append, List.length_singleton] at hlt
        by_cases heq : lpe = s.sizes.length
        · exact ⟨_, List.mem_cons_self, heq.symm⟩
        · obtain ⟨e, he, hlpe⟩ := h.listed lpe (by omega) hrel
          exact ⟨e, List.mem_cons_of_mem _ he, hlpe⟩
      · intro lpe hrel
        obtain ⟨n, hn, hn'⟩ := h.released lpe hrel
        obtain ⟨hlt, -⟩ := List.getElem?_eq_some_iff.1 hn
        exact ⟨n, List.getElem?_append_left hlt ▸ hn, hn'⟩
      · intro pg hpg
        have hlt := h.freed pg hpg
        rw [List.length_append]
        omega
      · exact List.forall_mem_cons.2 ⟨hbelow, h.below⟩
      · exact List.pairwise_cons.2 ⟨hdisj, h.disj⟩

/-- What `__free_pages` does when it is called in order. -/
theorem freePages_eq (h : Good s) (hord : Orderly s (.free page order)) :
    ∃ e ∈ s.lxPages, ∃ pages, e.lpe = page.1 ∧ page.2 + 2 ^ order ≤ e.numPages.toNat ∧
      Counts (s.freed ++ runPages page order) { e with pages } ∧
      s.freePages page order =
        if ∀ p ∈ pages, p.count = 0 then
          some { s with
            freed := s.freed ++ runPages page order
            lxPages := s.lxPages.filter fun e' => e'.lpe ≠ e.lpe
            released := s.released ++ [e.lpe] }
        else
          some { s with
            freed := s.freed ++ runPages page order
            lxPages := s.lxPages.map (·.setPages e.lpe pages) } := by
  obtain ⟨⟨e, he, hlpe, hle⟩, hrun⟩ := hord
  have hpos := Nat.two_pow_pos order
  have hfound : lxGetLpeFromPage page s.lxPages = some (e, page.2) := by
    rw [← lxGetLpeFromPage_eq h.nodup he (by omega : page.2 < e.numPages.toNat), hlpe]
  refine ⟨e, he, _, hlpe, hle, (h.counts e he).decCounts hlpe.symm hrun, ?_⟩
  unfold freePages
  rw [hfound]
  dsimp only
  rw [if_neg (by omega)]

theorem setPages_of_ne {lpe : ℕ} (hne : e.lpe ≠ lpe) (pages : List LxPage) :
    e.setPages lpe pages = e :=
  if_neg hne

theorem setPages_self (e : LxPgEntry) (pages : List LxPage) :
    e.setPages e.lpe pages = { e with pages } :=
  if_pos rfl

/-- Changing the counts changes nothing else. -/
theorem setPages_fields (e : LxPgEntry) (lpe : ℕ) (pages : List LxPage) :
    (e.setPages lpe pages).lpe = e.lpe ∧ (e.setPages lpe pages).numPages = e.numPages ∧
      lo (e.setPages lpe pages) = lo e ∧ hi (e.setPages lpe pages) = hi e := by
  unfold LxPgEntry.setPages
  split_ifs <;> exact ⟨rfl, rfl, rfl, rfl⟩

/-- Two entries with the same number are the same. -/
theorem Good.eq_of_lpe (h : Good s) {e' : LxPgEntry} (he : e ∈ s.lxPages) (he' : e' ∈ s.lxPages)
    (heq : e'.lpe = e.lpe) : e' = e :=
  List.inj_on_of_nodup_map h.nodup he' he heq

theorem not_mem_runPages_of_ne {lpe i : ℕ} (hne : lpe ≠ page.1) : (lpe, i) ∉ runPages page order :=
  fun hmem => hne (mem_runPages.1 hmem).1

/-- Freed pages are of an entry, those of a run in one too. -/
theorem Good.freed_append (h : Good s) (he : e ∈ s.lxPages) (hlpe : e.lpe = page.1) :
    ∀ pg ∈ s.freed ++ runPages page order, pg.1 < s.sizes.length := by
  intro pg hpg
  rcases List.mem_append.1 hpg with hpg | hpg
  · exact h.freed pg hpg
  · rw [(mem_runPages.1 hpg).1, ← hlpe]
    exact h.lt_length he

/-- An entry keeps its pages when those of another one are freed. -/
theorem Good.unfreed_of_ne (h : Good s) (he : e ∈ s.lxPages) (hne : e.lpe ≠ page.1)
    (hpos : 0 < e.numPages.toNat) :
    ∃ i < e.numPages.toNat, (e.lpe, i) ∉ s.freed ++ runPages page order := by
  obtain ⟨i, hi, hnot⟩ := h.unfreed e he hpos
  refine ⟨i, hi, fun hmem => ?_⟩
  rcases List.mem_append.1 hmem with hmem | hmem
  · exact hnot hmem
  · exact not_mem_runPages_of_ne hne hmem

/-- Pages are freed of an entry that keeps some. -/
theorem Good.free_some (h : Good s) (he : e ∈ s.lxPages) (hlpe : e.lpe = page.1)
    {pages : List LxPage} (hcounts : Counts (s.freed ++ runPages page order) { e with pages })
    (hsome : ¬ ∀ p ∈ pages, p.count = 0) :
    Good { s with
      freed := s.freed ++ runPages page order
      lxPages := s.lxPages.map (·.setPages e.lpe pages) } where
  nodup := by
    have hmap : (s.lxPages.map (·.setPages e.lpe pages)).map LxPgEntry.lpe =
        s.lxPages.map LxPgEntry.lpe := by
      rw [List.map_map]
      exact List.map_congr_left fun e' _ => (setPages_fields e' e.lpe pages).1
    rw [hmap]
    exact h.nodup
  size := List.forall_mem_map.2 fun e' he' => by
    obtain ⟨hl, hn, -, -⟩ := setPages_fields e' e.lpe pages
    rw [hl, hn]
    exact h.size e' he'
  live := List.forall_mem_map.2 fun e' he' => by
    rw [(setPages_fields e' e.lpe pages).1]
    exact h.live e' he'
  counts := List.forall_mem_map.2 fun e' he' => by
    by_cases heq : e'.lpe = e.lpe
    · rw [h.eq_of_lpe he he' heq, setPages_self]
      exact hcounts
    · rw [setPages_of_ne heq]
      exact (h.counts e' he').of_ne fun hpage => heq (hpage.symm.trans hlpe.symm)
  unfreed := List.forall_mem_map.2 fun e' he' hpos => by
    obtain ⟨hl, hn, -, -⟩ := setPages_fields e' e.lpe pages
    rw [hn] at hpos ⊢
    rw [hl]
    by_cases heq : e'.lpe = e.lpe
    · rw [h.eq_of_lpe he he' heq]
      by_contra hall
      refine hsome (hcounts.forall_zero_iff.2 fun i hi => ?_)
      by_contra hnot
      exact hall ⟨i, hi, hnot⟩
    · exact h.unfreed_of_ne he' (fun hp => heq (hp.trans hlpe.symm)) hpos
  listed lpe hlt hrel := by
    obtain ⟨e', he', rfl⟩ := h.listed lpe hlt hrel
    exact ⟨_, List.mem_map_of_mem he', (setPages_fields e' e.lpe pages).1⟩
  released lpe hrel := by
    obtain ⟨n, hn, hpos, hall⟩ := h.released lpe hrel
    exact ⟨n, hn, hpos, fun i hi => List.mem_append_left _ (hall i hi)⟩
  once := h.once
  freed := h.freed_append he hlpe
  below := List.forall_mem_map.2 fun e' he' => by
    rw [(setPages_fields e' e.lpe pages).2.2.2]
    exact h.below e' he'
  disj := by
    refine List.pairwise_map.2 (h.disj.imp fun {a b} hdisj => ?_)
    obtain ⟨-, -, hla, hha⟩ := setPages_fields a e.lpe pages
    obtain ⟨-, -, hlb, hhb⟩ := setPages_fields b e.lpe pages
    unfold Ranges.Disj at hdisj ⊢
    rw [hla, hha, hlb, hhb]
    exact hdisj

/-- The last pages of an entry are freed. -/
theorem Good.free_all (h : Good s) (he : e ∈ s.lxPages) (hlpe : e.lpe = page.1)
    (hle : page.2 + 2 ^ order ≤ e.numPages.toNat) {pages : List LxPage}
    (hcounts : Counts (s.freed ++ runPages page order) { e with pages })
    (hall : ∀ p ∈ pages, p.count = 0) :
    Good { s with
      freed := s.freed ++ runPages page order
      lxPages := s.lxPages.filter fun e' => e'.lpe ≠ e.lpe
      released := s.released ++ [e.lpe] } := by
  have hmem {e' : LxPgEntry} (he' : e' ∈ s.lxPages.filter fun e' => e'.lpe ≠ e.lpe) :
      e' ∈ s.lxPages ∧ e'.lpe ≠ e.lpe :=
    ⟨List.mem_of_mem_filter he', by simpa using List.of_mem_filter he'⟩
  have hsub : (s.lxPages.filter fun e' => e'.lpe ≠ e.lpe).Sublist s.lxPages :=
    List.filter_sublist
  have hzero := hcounts.forall_zero_iff.1 hall
  refine ⟨h.nodup.sublist (hsub.map _), ?_, ?_, ?_, ?_, ?_, ?_, ?_, ?_, ?_, h.disj.sublist hsub⟩
  · exact fun e' he' => h.size e' (hmem he').1
  · intro e' he' hrel
    rcases List.mem_append.1 hrel with hrel | hrel
    · exact h.live e' (hmem he').1 hrel
    · exact (hmem he').2 (List.mem_singleton.1 hrel)
  · intro e' he'
    exact (h.counts e' (hmem he').1).of_ne fun hp => (hmem he').2 (hp.symm.trans hlpe.symm)
  · intro e' he'
    exact h.unfreed_of_ne (hmem he').1 fun hp => (hmem he').2 (hp.trans hlpe.symm)
  · intro lpe hlt hrel
    obtain ⟨hrel, hne⟩ := not_or.1 (mt List.mem_append.2 hrel)
    obtain ⟨e', he', rfl⟩ := h.listed lpe hlt hrel
    have hne' : e'.lpe ≠ e.lpe := fun heq => hne (List.mem_singleton.2 heq)
    exact ⟨e', List.mem_filter.2 ⟨he', by simpa using hne'⟩, rfl⟩
  · intro lpe hrel
    rcases List.mem_append.1 hrel with hrel | hrel
    · obtain ⟨n, hn, hpos, hfreed⟩ := h.released lpe hrel
      exact ⟨n, hn, hpos, fun i hi => List.mem_append_left _ (hfreed i hi)⟩
    · rw [List.mem_singleton.1 hrel]
      have hpos := Nat.two_pow_pos order
      exact ⟨_, h.size e he, by omega, hzero⟩
  · refine List.nodup_append.2 ⟨h.once, List.nodup_singleton _, ?_⟩
    rintro lpe hrel lpe' hrel' rfl
    exact h.live e he (List.mem_singleton.1 hrel' ▸ hrel)
  · exact h.freed_append he hlpe
  · exact fun e' he' => h.below e' (hmem he').1

theorem good_step (h : Good s) (hord : Orderly s a) (hs : machine.step s a = some s') :
    Good s' := by
  cases a with
  | alloc gfpMask numPages entry start =>
    cases hs
    exact h.alloc hord
  | free page order =>
    obtain ⟨e, he, pages, hlpe, hle, hcounts, heq⟩ := freePages_eq h hord
    have hfree : s.freePages page order = some s' := hs
    rw [heq] at hfree
    split_ifs at hfree with hall
    · cases hfree
      exact h.free_all he hlpe hle hcounts hall
    · cases hfree
      exact h.free_some he hlpe hcounts hall

/-- A step touches no other entry. -/
theorem isolated_of_orderly (h : Good s) (hord : Orderly s a) : Isolated s a := by
  cases a with
  | alloc gfpMask numPages entry start =>
    refine ⟨_, rfl, ?_⟩
    dsimp only
    unfold lxAllocNumPages
    split_ifs
    · exact ⟨fun _ he => he, rfl⟩
    · cases start with
      | none => exact ⟨fun _ he => he, rfl⟩
      | some addr => exact ⟨fun _ he => List.mem_cons_of_mem _ he, rfl⟩
  | free page order =>
    obtain ⟨e, he, pages, hlpe, hle, hcounts, heq⟩ := freePages_eq h hord
    have hstep : s.step (.free page order) = _ := heq
    split_ifs at hstep
    · refine ⟨_, hstep, fun e' he' hne => ?_, fun lpe hrel => ?_⟩
      · exact List.mem_filter.2 ⟨he', by simpa using hlpe ▸ hne⟩
      · exact (List.mem_append.1 hrel).imp_right fun hmem => (List.mem_singleton.1 hmem).trans hlpe
    · refine ⟨_, hstep, fun e' he' hne => ?_, fun lpe hrel => .inl hrel⟩
      exact List.mem_map.2 ⟨e', he', setPages_of_ne (hlpe ▸ hne) pages⟩

theorem good_init : Good machine.init :=
  ⟨.nil, nofun, nofun, nofun, nofun, nofun, nofun, .nil, nofun, nofun, .nil⟩

/-- A check of `Orderly`. -/
def isOrderly (s : PageSys) : PageAct → Bool
  | .alloc gfpMask numPages _ start => start.all fun addr =>
    decide (addr.toNat + 4096 * numPages.toNat < 2 ^ 32 ∧
      ∀ e ∈ s.lxPages, Ranges.Apart lo hi (newPgEntry s.sizes.length gfpMask numPages addr) e)
  | .free page order =>
    decide ((∃ e ∈ s.lxPages, e.lpe = page.1 ∧ page.2 + 2 ^ order ≤ e.numPages.toNat) ∧
      ∀ pg ∈ runPages page order, pg ∉ s.freed)

theorem orderly_of_isOrderly (s : PageSys) (a : PageAct) (h : s.isOrderly a = true) :
    Orderly s a := by
  cases a with
  | alloc gfpMask numPages entry start =>
    intro addr haddr
    obtain ⟨hbelow, hapart⟩ := of_decide_eq_true ((Option.all_eq_true _ _).1 h addr haddr)
    exact ⟨hbelow, fun e he => (hapart e he).disj⟩
  | free page order =>
    exact of_decide_eq_true (p := (∃ e ∈ s.lxPages, e.lpe = page.1 ∧
      page.2 + 2 ^ order ≤ e.numPages.toNat) ∧ ∀ pg ∈ runPages page order, pg ∉ s.freed) h

/-- Blocks of four and of two pages, whose pages are freed in another order. -/
def mixedRun : List PageAct :=
  [.alloc 0 4 true (some 0x10000), .alloc 0 2 true (some 0x20000), .free (0, 2) 1, .free (1, 0) 0,
    .free (0, 0) 0, .free (0, 1) 0, .free (1, 1) 0]

end PageSys

end LxApi32
