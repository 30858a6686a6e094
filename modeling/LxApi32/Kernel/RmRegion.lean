import LxApi32.Daemon.Packet
import LxApi32.Lib.Machine

/-!
# Memory regions in the resource manager

`LX_request_region` allocates a region in the resource manager of OS/2, and `LX_release_region`
gives it back.  Whether it is allocated they see at `hResource`.

* `regionStep_inv` : the calls that leave `hResource` as it should be.
* `always_regionOk_iff` : when it is so throughout a run.
-/

namespace LxApi32

/-- `RS_MEM_EXCLUSIVE` -/
def rsMemExclusive : ULONG := 1

/-- The memory resource in a `RESOURCESTRUCT`. -/
structure MemResource where
  /-- `MemBase` -/
  memBase : ULONG
  /-- `MemSize` -/
  memSize : ULONG
  /-- `MemFlags` -/
  memFlags : ULONG
  deriving DecidableEq, Repr

/-- `struct lxrm_resource` -/
structure LxrmResource where
  /-- `hDriver` -/
  hDriver : ULONG
  /-- `hAdapterOrDevice` -/
  hAdapterOrDevice : ULONG
  /-- `hResource` -/
  hResource : ULONG
  /-- `pResource` -/
  pResource : Option MemResource
  deriving DecidableEq, Repr

/-- The variables of `lxrm.c` that the functions read. -/
structure RmConfig where
  /-- `dolxdevtree` -/
  dolxdevtree : Bool
  /-- `dorm` -/
  dorm : Bool
  /-- `hDriver` -/
  hDriver : ULONG
  /-- `hMEMAdap` -/
  hMEMAdap : ULONG

/-- A `struct lxrm_resource` and the resource manager. -/
structure RmState where
  /-- The `struct lxrm_resource`. -/
  res : LxrmResource
  /-- What is allocated for it in the resource manager, with the handles. -/
  held : List (ULONG × MemResource)
  /-- A resource that is not allocated was to be deallocated. -/
  twice : Bool
  deriving DecidableEq, Repr

/-- A call, with the results of the resource manager. -/
inductive RegionCall
  /-- `LX_request_region` : the result of `RM32AllocResource` with the handle, and that of
  `RM32ModifyResources`. -/
  | request (start n : ULONG) (rcAlloc : ULONG) (hResource : { h : ULONG // h ≠ 0 })
    (rcModify : ULONG)
  /-- `LX_release_region` : the results of `RM32ModifyResources` and `RM32DeallocResource`. -/
  | release (rcModify rcDealloc : ULONG)

/-- `LX_request_region` -/
def lxRequestRegion (cfg : RmConfig) (s : RmState) (start n rcAlloc : ULONG)
    (hResource : { h : ULONG // h ≠ 0 }) (rcModify : ULONG) : ULONG × RmState :=
  if !cfg.dolxdevtree || !cfg.dorm then (0, s)
  else if s.res.hResource = 0 then
    let mem := s.res.pResource.getD ⟨start, n, rsMemExclusive⟩
    let r := { s.res with
      hDriver := if s.res.hDriver = 0 then cfg.hDriver else s.res.hDriver
      hAdapterOrDevice :=
        if s.res.hAdapterOrDevice = 0 then cfg.hMEMAdap else s.res.hAdapterOrDevice }
    if rcAlloc = 0 then
      (rcModify, { s with
        res := { r with hResource := hResource.1 }
        held := (hResource.1, mem) :: s.held })
    else (rcAlloc, { s with res := r })
  else (0, s)

/-- `LX_release_region` -/
def lxReleaseRegion (cfg : RmConfig) (s : RmState) (rcModify rcDealloc : ULONG) :
    ULONG × RmState :=
  if !cfg.dolxdevtree || !cfg.dorm then (0, s)
  else if s.res.hResource ≠ 0 then
    if rcModify = 0 then
      let s := { s with twice := s.twice || s.held.all (·.1 != s.res.hResource) }
      if rcDealloc = 0 then
        (0, { s with
          res := { s.res with hAdapterOrDevice := 0 }
          held := s.held.eraseP (·.1 == s.res.hResource) })
      else (rcDealloc, s)
    else (rcModify, s)
  else (0, s)

/-- The calls on a `struct lxrm_resource` that was zero at first, `pResource` apart. -/
def regionMachine (cfg : RmConfig) (pResource : Option MemResource) :
    Machine RmState RegionCall where
  init := ⟨⟨0, 0, 0, pResource⟩, [], false⟩
  step s
    | .request start n rcAlloc hResource rcModify =>
      some (lxRequestRegion cfg s start n rcAlloc hResource rcModify).2
    | .release rcModify rcDealloc => some (lxReleaseRegion cfg s rcModify rcDealloc).2

/-! ### Runs -/

/-- `hResource` is not zero exactly when the resource is allocated, and nothing was released
twice. -/
def RegionOk (s : RmState) : Prop := (s.res.hResource ≠ 0 ↔ s.held ≠ []) ∧ s.twice = false

/-- `hResource` is the handle of what is allocated. -/
def RegionInv (s : RmState) : Prop :=
  (s.res.hResource = 0 ∧ s.held = [] ∨
    s.res.hResource ≠ 0 ∧ ∃ mem, s.held = [(s.res.hResource, mem)]) ∧ s.twice = false

/-- The call does not deallocate the resource. -/
def KeepsRegion (cfg : RmConfig) (s : RmState) : RegionCall → Prop
  | .request .. => True
  | .release rcModify rcDealloc =>
    ¬ (cfg.dolxdevtree = true ∧ cfg.dorm = true ∧ s.res.hResource ≠ 0 ∧ rcModify = 0 ∧
      rcDealloc = 0)

section

variable {cfg : RmConfig} {pResource : Option MemResource} {s s' : RmState} {c : RegionCall}

theorem RegionInv.ok (h : RegionInv s) : RegionOk s := by
  obtain ⟨⟨h0, hheld⟩ | ⟨h0, mem, hheld⟩, htwice⟩ := h
  · exact ⟨⟨fun h => absurd h0 h, fun h => absurd hheld h⟩, htwice⟩
  · exact ⟨⟨fun _ => by simp [hheld], fun _ => h0⟩, htwice⟩

/-- A request allocates the resource if it is not allocated. -/
theorem lxRequestRegion_inv (hinv : RegionInv s) (start n rcAlloc : ULONG)
    (hResource : { h : ULONG // h ≠ 0 }) (rcModify : ULONG) :
    RegionInv (lxRequestRegion cfg s start n rcAlloc hResource rcModify).2 := by
  unfold lxRequestRegion
  by_cases hoff : (!cfg.dolxdevtree || !cfg.dorm) = true
  · rwa [if_pos hoff]
  · rw [if_neg hoff]
    obtain ⟨⟨h0, hheld⟩ | ⟨hne, mem, hheld⟩, htwice⟩ := hinv
    · rw [if_pos h0]
      by_cases hrc : rcAlloc = 0
      · rw [if_pos hrc]
        exact ⟨.inr ⟨hResource.2, _, by simp only [hheld]; rfl⟩, htwice⟩
      · rw [if_neg hrc]
        exact ⟨.inl ⟨h0, hheld⟩, htwice⟩
    · rw [if_neg hne]
      exact ⟨.inr ⟨hne, mem, hheld⟩, htwice⟩

/-- A release of a resource that is allocated: nothing happens to it, or it is deallocated. -/
theorem lxReleaseRegion_cases (hinv : RegionInv s) (rcModify rcDealloc : ULONG) :
    KeepsRegion cfg s (.release rcModify rcDealloc) ∧
        (lxReleaseRegion cfg s rcModify rcDealloc).2 = s ∨
      ¬ KeepsRegion cfg s (.release rcModify rcDealloc) ∧
        (lxReleaseRegion cfg s rcModify rcDealloc).2.res.hResource ≠ 0 ∧
        (lxReleaseRegion cfg s rcModify rcDealloc).2.held = [] := by
  unfold lxReleaseRegion KeepsRegion
  by_cases hoff : (!cfg.dolxdevtree || !cfg.dorm) = true
  · rw [if_pos hoff]
    refine .inl ⟨fun h => ?_, rfl⟩
    rw [h.1, h.2.1] at hoff
    exact absurd hoff (by decide)
  · rw [if_neg hoff]
    have hon : cfg.dolxdevtree = true ∧ cfg.dorm = true := by simpa using hoff
    obtain ⟨⟨h0, hheld⟩ | ⟨hne, mem, hheld⟩, htwice⟩ := hinv
    · rw [if_neg (not_not_intro h0)]
      exact .inl ⟨fun h => h.2.2.1 h0, rfl⟩
    · have hall : s.held.all (·.1 != s.res.hResource) = false := by simp [hheld]
      have hstep : { s with twice := s.twice || s.held.all (·.1 != s.res.hResource) } = s := by
        rw [hall, Bool.or_false]
      rw [if_pos hne]
      by_cases hmod : rcModify = 0
      · rw [if_pos hmod]
        simp only [hstep]
        by_cases hdea : rcDealloc = 0
        · rw [if_pos hdea]
          exact .inr ⟨not_not_intro ⟨hon.1, hon.2, hne, hmod, hdea⟩, hne, by simp [hheld]⟩
        · rw [if_neg hdea]
          exact .inl ⟨fun h => hdea h.2.2.2.2, rfl⟩
      · rw [if_neg hmod]
        exact .inl ⟨fun h => hmod h.2.2.2.1, rfl⟩

/-- A call that does not deallocate the resource leaves its handle in `hResource`. -/
theorem regionStep_inv (hinv : RegionInv s) (hkeep : KeepsRegion cfg s c)
    (h : (regionMachine cfg pResource).step s c = some s') : RegionInv s' := by
  cases c with
  | request start n rcAlloc hResource rcModify =>
    rw [← Option.some.inj h]
    exact lxRequestRegion_inv hinv start n rcAlloc hResource rcModify
  | release rcModify rcDealloc =>
    rw [← Option.some.inj h]
    rcases lxReleaseRegion_cases hinv rcModify rcDealloc with ⟨-, heq⟩ | ⟨hnot, -⟩
    · rwa [heq]
    · exact absurd hkeep hnot

/-- A call that deallocates the resource leaves `hResource` as it is. -/
theorem regionStep_keeps (hinv : RegionInv s)
    (h : (regionMachine cfg pResource).step s c = some s') (hok : RegionOk s') :
    KeepsRegion cfg s c := by
  cases c with
  | request start n rcAlloc hResource rcModify => trivial
  | release rcModify rcDealloc =>
    rw [← Option.some.inj h] at hok
    rcases lxReleaseRegion_cases hinv rcModify rcDealloc with ⟨hkeep, -⟩ | ⟨-, hne, hheld⟩
    · exact hkeep
    · exact absurd hheld (hok.1.1 hne)

/-- `hResource` tells whether the region is allocated throughout a run if and only if no call
deallocates it. -/
theorem always_regionOk_iff (cfg : RmConfig) (pResource : Option MemResource)
    (cs : List RegionCall) :
    (regionMachine cfg pResource).Always RegionOk (regionMachine cfg pResource).init cs ↔
      (regionMachine cfg pResource).Along (KeepsRegion cfg) (regionMachine cfg pResource).init
        cs := by
  have htotal : ∀ s c, ∃ s', (regionMachine cfg pResource).step s c = some s' := fun s c => by
    cases c <;> exact ⟨_, rfl⟩
  obtain ⟨s', hexec⟩ := Machine.exists_exec htotal (regionMachine cfg pResource).init cs
  exact Machine.always_iff_along (fun _ => RegionInv.ok)
    (fun _ _ _ hinv hkeep hstep => regionStep_inv hinv hkeep hstep)
    (fun _ _ _ hinv hstep hok => regionStep_keeps hinv hstep hok) ⟨.inl ⟨rfl, rfl⟩, rfl⟩ hexec

/-- After a request and a release, `hResource` has a handle of nothing. -/
theorem not_always_regionOk :
    ¬ (regionMachine ⟨true, true, 1, 2⟩ none).Always RegionOk
      (regionMachine ⟨true, true, 1, 2⟩ none).init
      [.request 0x100 0x10 0 ⟨5, by decide⟩ 0, .release 0 0] := by
  intro h
  have hok : RegionOk ⟨⟨1, 0, 5, none⟩, [], false⟩ := (h.2 _ rfl).2 _ rfl
  exact hok.1.1 (by decide) rfl

end

end LxApi32
