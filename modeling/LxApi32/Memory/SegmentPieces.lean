import LxApi32.Lib.Ranges
import LxApi32.Memory.Segments

/-!
# The pieces of a segment

`LX_alloc_segment` maps a segment of `size` bytes with `size / 65535 + 1` selectors, one for each
piece.  The loop takes 65535 bytes for a piece as long as there are more, and then the rest.  If
`size` is a multiple of 65535 there is nothing left for the last selector.

* `selLoop_tiles` : the pieces follow one another, in as many turns as the size needs.
* `lxAllocSegment_tiled_iff` : the pieces of a segment make up its memory, and none is empty,
  exactly if its size is not a multiple of 65535.
-/

namespace LxApi32

/-- A call of `DevPhysToGDTSel` that has succeeded. -/
structure SelMap where
  /-- The selector. -/
  sel : SEL
  /-- The physical address. -/
  phys : ULONG
  /-- The length. -/
  size : ULONG
  deriving DecidableEq, Repr

/-- The calls of `DevPhysToGDTSel` that succeed in the loop of `LX_alloc_segment`. -/
def selLoopMaps (t : GdtTable) (ans : SegmentAns) :
    ℕ → ℕ → ULONG → ULONG → Gdt → Segment → List SelMap
  | 0, _, _, _, _, _ => []
  | n + 1, k, lastphysical, size, g, segment =>
    let sz := if maxSegmentSize < size then maxSegmentSize else size
    match allocGDTSelector t (ans.table k).1 g with
    | none => []
    | some (g, sel) =>
      let segment : Segment := { segment with selArray := segment.selArray ++ [sel] }
      if sel = 0 then []
      else if ans.map k lastphysical sz sel segment.type = false then []
      else if segment.pMapped = 0 then
        match ans.lin k sel with
        | none => [⟨sel, lastphysical, sz⟩]
        | some pMapped =>
          ⟨sel, lastphysical, sz⟩ ::
            selLoopMaps t ans n (k + 1) (lastphysical + sz) (size - sz) g { segment with pMapped }
      else ⟨sel, lastphysical, sz⟩ ::
        selLoopMaps t ans n (k + 1) (lastphysical + sz) (size - sz) g segment

/-- Those of a call of `LX_alloc_segment` that gets to its loop. -/
def segmentMaps (t : GdtTable) (ans : SegmentAns) (type size virtAddr segptr : ULONG) (g : Gdt) :
    List SelMap :=
  let pVirtual := segmentVirtual ans virtAddr
  let pPhysical := ans.pa pVirtual
  let numSels := size / maxSegmentSize + 1
  selLoopMaps t ans numSels.toNat 0 pPhysical size g
    ⟨segmentAddr ans segptr, type, size, pVirtual, pPhysical, 0, numSels, ans.sels, []⟩

namespace SelMap

/-- The first byte. -/
def start (m : SelMap) : ℕ := m.phys.toNat

/-- The first byte behind the piece. -/
def stop (m : SelMap) : ℕ := m.phys.toNat + m.size.toNat

end SelMap

/-- The selectors of a segment are mapped to pieces that make up its memory. -/
structure SegmentTiled (segment : Segment) (maps : List SelMap) : Prop where
  /-- They are those in the array. -/
  sels : segment.selArray = maps.map SelMap.sel
  /-- Their number is noted. -/
  numSels : segment.numSels.toNat = maps.length
  /-- The pieces follow one another from the first byte to the last. -/
  tiles : Ranges.Tiles SelMap.start SelMap.stop segment.pPhysical.toNat maps
    (segment.pPhysical.toNat + segment.size.toNat)
  /-- No piece is empty or too long. -/
  size : ∀ m ∈ maps, 1 ≤ m.size.toNat ∧ m.size.toNat ≤ 65535
  /-- Where each piece begins. -/
  start : ∀ i, (h : i < maps.length) →
    (maps.get ⟨i, h⟩).start = segment.pPhysical.toNat + i * 65535

section

variable {t : GdtTable} {ans : SegmentAns} {n k : ℕ} {lastphysical size : ULONG} {g g' : Gdt}
  {segment segment' : Segment}

/-- The size of a piece. -/
def pieceSize (size : ULONG) : ULONG := if maxSegmentSize < size then maxSegmentSize else size

theorem toNat_pieceSize (size : ULONG) : (pieceSize size).toNat = min 65535 size.toNat := by
  unfold pieceSize
  split_ifs with h
  · exact (Nat.min_eq_left (Nat.le_of_lt (BitVec.lt_def.1 h))).symm
  · exact (Nat.min_eq_right (Nat.le_of_not_lt (mt BitVec.lt_def.2 h))).symm

/-- A turn of a loop that succeeds in the end. -/
theorem selLoop_succ
    (hr : selLoop t ans (n + 1) k lastphysical size g segment = some (g', segment', true)) :
    ∃ g₁ sel pMapped, allocGDTSelector t (ans.table k).1 g = some (g₁, sel) ∧ sel ≠ 0 ∧
      let segment₁ := { segment with selArray := segment.selArray ++ [sel], pMapped }
      selLoop t ans n (k + 1) (lastphysical + pieceSize size) (size - pieceSize size) g₁ segment₁ =
        some (g', segment', true) ∧
      selLoopMaps t ans (n + 1) k lastphysical size g segment =
        ⟨sel, lastphysical, pieceSize size⟩ :: selLoopMaps t ans n (k + 1)
          (lastphysical + pieceSize size) (size - pieceSize size) g₁ segment₁ := by
  have hsz : (if maxSegmentSize < size then maxSegmentSize else size) = pieceSize size := rfl
  rw [selLoop, hsz] at hr
  rw [selLoopMaps, hsz]
  dsimp only at hr ⊢
  cases ha : allocGDTSelector t (ans.table k).1 g with
  | none => rw [ha] at hr; cases hr
  | some r =>
    obtain ⟨g₁, sel⟩ := r
    rw [ha] at hr
    dsimp only at hr ⊢
    split_ifs at hr ⊢ with hsel hmap hpm
    · cases hr
    · cases hr
    · cases hlin : ans.lin k sel with
      | none => rw [hlin] at hr; cases hr
      | some pMapped =>
        rw [hlin] at hr
        exact ⟨g₁, sel, pMapped, rfl, hsel, hr, rfl⟩
    · exact ⟨g₁, sel, segment.pMapped, rfl, hsel, hr, rfl⟩

/-- The selectors of the calls are put into the array. -/
theorem selLoop_selArray
    (hr : selLoop t ans n k lastphysical size g segment = some (g', segment', true)) :
    segment'.selArray = segment.selArray ++
        (selLoopMaps t ans n k lastphysical size g segment).map SelMap.sel ∧
      (selLoopMaps t ans n k lastphysical size g segment).length = n := by
  induction n generalizing k lastphysical size g segment with
  | zero =>
    cases hr
    simp [selLoopMaps]
  | succ n ih =>
    obtain ⟨g₁, sel, pMapped, -, -, hrest, hmaps⟩ := selLoop_succ hr
    obtain ⟨harray, hlength⟩ := ih hrest
    rw [hmaps, harray, List.map_cons, List.length_cons, hlength]
    simp

/-- The loop writes only the array and `pMapped`. -/
theorem selLoop_fields {b : Bool}
    (hr : selLoop t ans n k lastphysical size g segment = some (g', segment', b)) :
    segment'.pPhysical = segment.pPhysical ∧ segment'.size = segment.size ∧
      segment'.numSels = segment.numSels :=
  selLoop_invariant
    (I := fun _ segment' => segment'.pPhysical = segment.pPhysical ∧
      segment'.size = segment.size ∧ segment'.numSels = segment.numSels)
    (fun _ _ _ _ _ _ h _ => h) ⟨rfl, rfl, rfl⟩ hr

/-- One turn, as numbers. -/
theorem pieceSize_spec (hfit : lastphysical.toNat + size.toNat ≤ 2 ^ 32)
    (hsize : size.toNat % 65535 ≠ 0) :
    (size - pieceSize size).toNat = size.toNat - (pieceSize size).toNat ∧
      (pieceSize size).toNat = min 65535 size.toNat ∧
      (size.toNat / 65535 ≠ 0 →
        (lastphysical + pieceSize size).toNat = lastphysical.toNat + 65535) := by
  have hmin := toNat_pieceSize size
  refine ⟨BitVec.toNat_sub_of_le (BitVec.le_def.2 (by omega)), hmin, fun hdiv => ?_⟩
  rw [BitVec.toNat_add]
  omega

/-- **The pieces follow one another**, in as many turns as the size needs. -/
theorem selLoop_tiles
    (hr : selLoop t ans (size.toNat / 65535 + 1) k lastphysical size g segment =
      some (g', segment', true))
    (hfit : lastphysical.toNat + size.toNat ≤ 2 ^ 32) (hsize : size.toNat % 65535 ≠ 0) :
    let maps := selLoopMaps t ans (size.toNat / 65535 + 1) k lastphysical size g segment
    Ranges.Tiles SelMap.start SelMap.stop lastphysical.toNat maps
        (lastphysical.toNat + size.toNat) ∧
      (∀ m ∈ maps, 1 ≤ m.size.toNat ∧ m.size.toNat ≤ 65535) ∧
      ∀ i, (h : i < maps.length) →
        (maps.get ⟨i, h⟩).start = lastphysical.toNat + i * 65535 := by
  generalize hn : size.toNat / 65535 = n at hr
  induction n generalizing k lastphysical size g segment with
  | zero =>
    -- the rest
    obtain ⟨g₁, sel, pMapped, -, -, -, hmaps⟩ := selLoop_succ hr
    have hpiece := toNat_pieceSize size
    rw [hmaps]
    simp only [selLoopMaps]
    refine ⟨⟨rfl, ?_⟩, List.forall_mem_singleton.2 ?_, fun i h => ?_⟩
    · show lastphysical.toNat + (pieceSize size).toNat = _
      omega
    · show 1 ≤ (pieceSize size).toNat ∧ (pieceSize size).toNat ≤ 65535
      omega
    · obtain rfl : i = 0 := by simpa using h
      simp [SelMap.start]
  | succ n ih =>
    obtain ⟨g₁, sel, pMapped, -, -, hrest, hmaps⟩ := selLoop_succ hr
    obtain ⟨hsub, hpiece, hadd⟩ := pieceSize_spec hfit hsize
    have hnext := hadd (by omega)
    obtain ⟨htiles, hall, hstart⟩ := ih (by omega) (by omega) (by omega) hrest
    rw [hmaps]
    refine ⟨⟨rfl, ?_⟩, List.forall_mem_cons.2 ⟨?_, hall⟩, fun i h => ?_⟩
    · have hstop : SelMap.stop ⟨sel, lastphysical, pieceSize size⟩ =
          (lastphysical + pieceSize size).toNat := by
        show lastphysical.toNat + (pieceSize size).toNat = _
        omega
      have hend : lastphysical.toNat + size.toNat =
          (lastphysical + pieceSize size).toNat + (size - pieceSize size).toNat := by
        omega
      rw [hstop, hend]
      exact htiles
    · show 1 ≤ (pieceSize size).toNat ∧ (pieceSize size).toNat ≤ 65535
      omega
    · cases i with
      | zero => simp [SelMap.start]
      | succ i =>
        have hpiece := hstart i (Nat.lt_of_succ_lt_succ h)
        rw [List.get_cons_succ, hpiece]
        omega

/-- Nothing is left for the last selector of a multiple of the size of a piece. -/
theorem selLoop_empty
    (hr : selLoop t ans (size.toNat / 65535 + 1) k lastphysical size g segment =
      some (g', segment', true)) (hsize : size.toNat % 65535 = 0) :
    ∃ m ∈ selLoopMaps t ans (size.toNat / 65535 + 1) k lastphysical size g segment,
      m.size.toNat = 0 := by
  generalize hn : size.toNat / 65535 = n at hr
  induction n generalizing k lastphysical size g segment with
  | zero =>
    obtain ⟨g₁, sel, pMapped, -, -, -, hmaps⟩ := selLoop_succ hr
    have hpiece := toNat_pieceSize size
    rw [hmaps]
    refine ⟨_, List.mem_cons_self, ?_⟩
    show (pieceSize size).toNat = 0
    omega
  | succ n ih =>
    obtain ⟨g₁, sel, pMapped, -, -, hrest, hmaps⟩ := selLoop_succ hr
    have hpiece := toNat_pieceSize size
    have hsub : (size - pieceSize size).toNat = size.toNat - (pieceSize size).toNat :=
      BitVec.toNat_sub_of_le (BitVec.le_def.2 (by omega))
    obtain ⟨m, hm, hempty⟩ := ih (by omega) (by omega) hrest
    rw [hmaps]
    exact ⟨m, List.mem_cons_of_mem _ hm, hempty⟩

end

/-- The number of selectors does not wrap around. -/
theorem toNat_numSels (size : ULONG) :
    (size / maxSegmentSize + 1).toNat = size.toNat / 65535 + 1 := by
  have hlt := size.isLt
  have hdiv : (size / maxSegmentSize).toNat = size.toNat / 65535 := BitVec.toNat_udiv
  rw [BitVec.toNat_add, hdiv]
  show (size.toNat / 65535 + 1) % 2 ^ 32 = _
  omega

/-- **The pieces of a segment** make up its memory, and none is empty, exactly if its size is not a
multiple of the size of a piece. -/
theorem lxAllocSegment_tiled_iff {t : GdtTable} {ans : SegmentAns}
    {type size virtAddr segptr : ULONG} {g : Gdt} {r : SegmentResult} {segment : Segment}
    (hr : lxAllocSegment t ans type size virtAddr segptr g = some r) (hret : r.ret = some segment)
    (hsize : size ≠ 0)
    (hfit : (ans.pa (segmentVirtual ans virtAddr)).toNat + size.toNat ≤ 2 ^ 32) :
    SegmentTiled segment (segmentMaps t ans type size virtAddr segptr g) ↔
      size.toNat % 65535 ≠ 0 := by
  obtain ⟨-, rfl⟩ | ⟨-, hzero, -⟩ | ⟨-, -, -, rfl⟩ |
    ⟨-, -, -, -, -, g₁, segment₁, b, hloop, ⟨rfl, rfl⟩ | ⟨-, g₂, -, rfl⟩⟩ := lxAllocSegment_cases hr
  · cases hret
  · exact absurd hzero hsize
  · cases hret
  · obtain rfl := Option.some.inj hret
    obtain ⟨harray, hlength⟩ := selLoop_selArray hloop
    obtain ⟨hphys, hsz, hnum⟩ := selLoop_fields hloop
    rw [toNat_numSels] at hloop
    unfold segmentMaps
    dsimp only
    rw [toNat_numSels] at harray hlength ⊢
    constructor
    · intro htiled hmod
      obtain ⟨m, hm, hempty⟩ := selLoop_empty hloop hmod
      have := (htiled.size m hm).1
      omega
    · intro hmod
      obtain ⟨htiles, hall, hstart⟩ := selLoop_tiles hloop hfit hmod
      refine ⟨harray, ?_, ?_, hall, ?_⟩
      · rw [hnum, hlength]
        exact toNat_numSels size
      · rw [hphys, hsz]
        exact htiles
      · rw [hphys]
        exact hstart
  · cases hret

/-- All that a segment needs is there. -/
def segmentGranted : SegmentAns where
  segment := 0x1000
  virt := 0x50000
  pa _ := 0x100000
  sels := 0x2000
  table _ := (true, true)
  map _ _ _ _ _ := true
  lin _ _ := some 0x70000

/-- A segment of 64 KB has a second piece of one byte. -/
theorem lxAllocSegment_tiled_64K :
    SegmentTiled ⟨0x1000, 0, 65536, 0x50000, 0x100000, 0x70000, 2, 0x2000, [8, 16]⟩
      (segmentMaps .numbered segmentGranted 0 65536 0 0 SelState.initial.gdt) := by
  have hr : lxAllocSegment .numbered segmentGranted 0 65536 0 0 SelState.initial.gdt = some _ := rfl
  exact (lxAllocSegment_tiled_iff hr rfl (by decide) (by decide)).2 (by decide)

/-- With one byte less its second piece is empty. -/
theorem not_tiled_65535 :
    ∃ r segment, lxAllocSegment .numbered segmentGranted 0 65535 0 0 SelState.initial.gdt = some r ∧
      r.ret = some segment ∧
      ¬ SegmentTiled segment
        (segmentMaps .numbered segmentGranted 0 65535 0 0 SelState.initial.gdt) := by
  refine ⟨_, _, rfl, rfl, fun h => ?_⟩
  have hpiece := h.size ⟨16, 0x10ffff, 0⟩ (by decide)
  exact absurd hpiece.1 (by decide)

end LxApi32
