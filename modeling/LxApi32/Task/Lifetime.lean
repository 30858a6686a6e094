import LxApi32.Task.Mailbox

/-!
# The lifetime of a start request

`LX_StartNewTask` allocates a request and puts it into the list.  The service thread frees it,
unless the caller waits: then the service thread sets `p->flags` to `LX_STARTTASK_STARTED`, and the
caller reads `p->tid` and frees the request.

* `TaskSys.lifeInv_run` : a request is never used after its `kfree`, is freed at most once, and once
  nobody holds it any more it has been freed, as long as nobody who waits passes
  `LX_STARTTASK_STARTED` himself.
* `TaskSys.lifetime` : if moreover no creation fails for a caller that waits, the caller returns the
  thread id that `LXA_CreateThread` has stored for its request.
* `TaskSys.not_stored_failedWait` : the service thread does not look at the result of
  `LXA_CreateThread`, and after a failure the caller returns what was in `p->tid`.
-/

namespace LxApi32

/-- The request that a caller still uses, if it does. -/
def Caller.owns : Caller → Option ℕ
  | .out _ => none
  | .filled p _ => some p
  | .queued p flags => if hasWait flags then some p else none
  | .started p => some p
  | .taken p _ => some p

/-- The request for which the service thread has just created a thread. -/
def ServicePc.created : ServicePc → List ℕ
  | .testFlags p | .setStarted p => [p]
  | _ => []

theorem ServicePc.created_subset_inHand (pc : ServicePc) : pc.created ⊆ pc.inHand := by
  cases pc <;> first | exact List.Subset.refl _ | exact List.nil_subset _

namespace TaskSys

/-- The requests of the service thread: in its hands or in the list. -/
def inService (s : TaskSys) : List ℕ := s.service.inHand ++ s.toStart

/-- The service thread or a caller still uses the request. -/
def Held (s : TaskSys) (p : ℕ) : Prop := p ∈ s.inService ∨ ∃ i, (s.callers i).owns = some p

/-- Nobody who waits passes `LX_STARTTASK_STARTED` himself. -/
def OwnFlags (_ : TaskSys) : TaskAct → Prop
  | .call _ _ flags inInterrupt _ _ =>
    hasWait (startFlags inInterrupt flags) → ¬ hasStarted (startFlags inInterrupt flags)
  | _ => True

/-- Moreover no creation fails for a caller that waits. -/
def Stores (s : TaskSys) : TaskAct → Prop
  | .create none => ∀ p, s.service = .create p → ¬ hasWait (s.requests p).flags
  | a => OwnFlags s a

/-- What a caller relies on. -/
def CallerOk (s : TaskSys) : Caller → Prop
  | .out _ => True
  | .filled p flags =>
    p ∉ s.inService ∧ (s.requests p).flags = flags ∧ (hasWait flags → ¬ hasStarted flags)
  | .queued p flags =>
    hasWait flags → ¬ hasStarted flags ∧ (p ∈ s.inService → (s.requests p).flags = flags)
  | .started p => p ∉ s.inService
  | .taken p _ => p ∉ s.inService

/-- The invariant. -/
structure LifeInv (s : TaskSys) : Prop where
  /-- The service thread has every request once. -/
  nodup : s.inService.Nodup
  /-- A request that is held has been allocated, and not freed. -/
  held : ∀ p, s.Held p → p < s.allocated ∧ (s.requests p).frees = 0
  /-- An allocated request is held, or has been freed once. -/
  freedOnce : ∀ p, p < s.allocated → s.Held p ∨ (s.requests p).frees = 1
  /-- A request belongs to one caller. -/
  apart : ∀ i j p, (s.callers i).owns = some p → (s.callers j).owns = some p → i = j
  /-- Every caller finds what it relies on. -/
  callers : ∀ i, s.CallerOk (s.callers i)
  /-- For a request with the wait flag there is somebody to free it. -/
  waited : ∀ p ∈ s.inService, hasWait (s.requests p).flags → ∃ i, (s.callers i).owns = some p
  /-- The service thread frees a request only if nobody waits. -/
  free : ∀ p, s.service = .free p → ¬ hasWait (s.requests p).flags
  /-- It hands a request over only if somebody waits. -/
  setStarted : ∀ p, s.service = .setStarted p → hasWait (s.requests p).flags
  /-- No request was used after its `kfree`. -/
  inTime : s.late = false

theorem late_touch {s : TaskSys} {ps : List ℕ} (h : s.late = false)
    (hps : ∀ p ∈ ps, (s.requests p).frees = 0) : (s.touch ps).late = false := by
  simp only [touch, h, Bool.false_or, List.any_eq_false, bne_iff_ne, not_not]
  exact hps

/-- What the service thread has in its hands. -/
theorem mem_inService {s : TaskSys} {pc : ServicePc} {p : ℕ} (hpc : s.service = pc)
    (hp : p ∈ pc.inHand) : p ∈ s.inService :=
  List.mem_append_left _ (hpc ▸ hp)

/-- Who uses a request that is held does so in time. -/
theorem LifeInv.late_touch {s : TaskSys} (h : LifeInv s) {p : ℕ} (hp : s.Held p) :
    (s.touch [p]).late = false := by
  refine TaskSys.late_touch h.inTime ?_
  intro q hq
  obtain rfl := List.mem_singleton.1 hq
  exact (h.held q hp).2

/-- What the service thread is about to free has not changed. -/
theorem LifeInv.free_of_same {s s' : TaskSys} (h : LifeInv s) (hsv : s'.service = s.service)
    (hreq : ∀ p ∈ s.inService, s'.requests p = s.requests p) (p : ℕ) (hp : s'.service = .free p) :
    ¬ hasWait (s'.requests p).flags := by
  rw [hsv] at hp
  rw [hreq p (mem_inService hp List.mem_cons_self)]
  exact h.free p hp

/-- What it is about to hand over has not changed. -/
theorem LifeInv.setStarted_of_same {s s' : TaskSys} (h : LifeInv s) (hsv : s'.service = s.service)
    (hreq : ∀ p ∈ s.inService, s'.requests p = s.requests p) (p : ℕ)
    (hp : s'.service = .setStarted p) : hasWait (s'.requests p).flags := by
  rw [hsv] at hp
  rw [hreq p (mem_inService hp List.mem_cons_self)]
  exact h.setStarted p hp

/-- A step that leaves the requests where they are. -/
theorem LifeInv.of_same {s s' : TaskSys} (h : LifeInv s) (halloc : s'.allocated = s.allocated)
    (hin : s'.inService = s.inService)
    (howns : ∀ i, (s'.callers i).owns = (s.callers i).owns)
    (hreq : ∀ p, (s'.requests p).flags = (s.requests p).flags ∧
      (s'.requests p).frees = (s.requests p).frees)
    (hcallers : ∀ i, s'.CallerOk (s'.callers i))
    (hfree : ∀ p, s'.service = .free p → ¬ hasWait (s'.requests p).flags)
    (hset : ∀ p, s'.service = .setStarted p → hasWait (s'.requests p).flags)
    (hlate : s'.late = false) : LifeInv s' := by
  have hheld : ∀ p, s'.Held p ↔ s.Held p := by
    intro p
    simp only [Held, hin, howns]
  refine ⟨hin ▸ h.nodup, ?_, ?_, ?_, hcallers, ?_, hfree, hset, hlate⟩
  · intro p hp
    rw [halloc, (hreq p).2]
    exact h.held p ((hheld p).1 hp)
  · intro p hp
    rw [(hreq p).2, hheld]
    exact h.freedOnce p (halloc ▸ hp)
  · intro i j p hi hj
    exact h.apart i j p ((howns i).symm.trans hi) ((howns j).symm.trans hj)
  · intro p hp hw
    rw [(hreq p).1] at hw
    obtain ⟨i, hi⟩ := h.waited p (hin ▸ hp) hw
    exact ⟨i, (howns i).trans hi⟩

/-- A caller relies on its own request only: the service thread does not get hold of it, and its
flags stay, unless the service thread gives it up. -/
theorem CallerOk.congr {s s' : TaskSys} {c : Caller} (h : s.CallerOk c)
    (hin : ∀ p, c.owns = some p → p ∈ s'.inService → p ∈ s.inService)
    (hflags : ∀ p, c.owns = some p → (s'.requests p).flags = (s.requests p).flags ∨
      p ∈ s.inService ∧ p ∉ s'.inService) : s'.CallerOk c := by
  cases c with
  | out => trivial
  | filled p flags =>
    obtain ⟨hnot, hf, hs⟩ := h
    refine ⟨fun hp => hnot (hin p rfl hp), ?_, hs⟩
    rcases hflags p rfl with heq | ⟨hp, -⟩
    · exact heq.trans hf
    · exact absurd hp hnot
  | queued p flags =>
    intro hw
    have hown : (Caller.queued p flags).owns = some p := if_pos hw
    refine ⟨(h hw).1, ?_⟩
    intro hp
    rcases hflags p hown with heq | ⟨-, hnot⟩
    · exact heq.trans ((h hw).2 (hin p hown hp))
    · exact absurd hp hnot
  | started p => exact fun hp => h (hin p rfl hp)
  | taken p rc => exact fun hp => h (hin p rfl hp)

/-- A step of the service thread that keeps its requests. -/
theorem LifeInv.of_service {s s' : TaskSys} (h : LifeInv s) (halloc : s'.allocated = s.allocated)
    (hin : s'.inService = s.inService) (hc : s'.callers = s.callers)
    (hreq : ∀ p, (s'.requests p).flags = (s.requests p).flags ∧
      (s'.requests p).frees = (s.requests p).frees)
    (hfree : ∀ p, s'.service = .free p → ¬ hasWait (s'.requests p).flags)
    (hset : ∀ p, s'.service = .setStarted p → hasWait (s'.requests p).flags)
    (hlate : s'.late = false) : LifeInv s' := by
  refine h.of_same halloc hin (fun i => by rw [hc]) hreq ?_ hfree hset hlate
  intro i
  rw [hc]
  exact (h.callers i).congr (fun p _ hp => hin ▸ hp) fun p _ => .inl (hreq p).1

theorem inHand_eq_nil_of_moves {s : TaskSys} {pc : ServicePc} (h : s.Moves pc) :
    s.service.inHand = [] ∧ pc.inHand = [] := by
  cases h <;> simp_all [ServicePc.inHand]

/-- A step of a caller that keeps its request. -/
theorem LifeInv.of_caller {s s' : TaskSys} (h : LifeInv s) {i : ℕ} {c : Caller}
    (halloc : s'.allocated = s.allocated) (hsv : s'.service = s.service)
    (hl : s'.toStart = s.toStart) (hreq : s'.requests = s.requests)
    (hc : s'.callers = Function.update s.callers i c) (howns : c.owns = (s.callers i).owns)
    (hok : s.CallerOk c) (hlate : s'.late = false) : LifeInv s' := by
  have hin : s'.inService = s.inService := by
    rw [inService, inService, hsv, hl]
  have hreq' : ∀ p, s'.requests p = s.requests p := congrFun hreq
  refine h.of_same halloc hin ?_ (fun p => by rw [hreq' p]; exact ⟨rfl, rfl⟩) ?_ ?_ ?_ hlate
  · intro j
    by_cases hji : j = i
    · rw [hc, hji, Function.update_self, howns]
    · rw [hc, Function.update_of_ne hji]
  · intro j
    have hj : s.CallerOk (s'.callers j) := by
      by_cases hji : j = i
      · rwa [hc, hji, Function.update_self]
      · rw [hc, Function.update_of_ne hji]
        exact h.callers j
    exact hj.congr (fun p _ hp => hin ▸ hp) fun p _ => .inl (by rw [hreq' p])
  · exact h.free_of_same hsv fun p _ => hreq' p
  · exact h.setStarted_of_same hsv fun p _ => hreq' p

/-- The service thread gives up the request `p` and goes on with the next iteration. -/
theorem LifeInv.of_done {s s' : TaskSys} (h : LifeInv s) {p : ℕ} (hpc : s.service.inHand = [p])
    (halloc : s'.allocated = s.allocated) (hidle : s'.service = .idle)
    (hl : s'.toStart = s.toStart) (hc : s'.callers = s.callers)
    (hreq : ∀ q, q ≠ p → s'.requests q = s.requests q)
    (hp : s'.Held p ∧ (s'.requests p).frees = 0 ∨ ¬ s'.Held p ∧ (s'.requests p).frees = 1)
    (hlate : s'.late = false) : LifeInv s' := by
  have hin : s.inService = p :: s'.inService := by
    rw [inService, inService, hpc, hidle, hl]
    rfl
  have hnot : p ∉ s'.inService := (List.nodup_cons.1 (hin ▸ h.nodup)).1
  have hheld : ∀ q, q ≠ p → (s'.Held q ↔ s.Held q) := by
    intro q hq
    simp only [Held, hin, hc, List.mem_cons, hq, false_or]
  refine ⟨(List.nodup_cons.1 (hin ▸ h.nodup)).2, ?_, ?_, ?_, ?_, ?_, ?_, ?_, hlate⟩
  · intro q hq
    by_cases hqp : q = p
    · subst hqp
      rcases hp with hp | hp
      · exact ⟨halloc ▸ (h.held q (.inl (hin ▸ List.mem_cons_self))).1, hp.2⟩
      · exact absurd hq hp.1
    · rw [halloc, hreq q hqp]
      exact h.held q ((hheld q hqp).1 hq)
  · intro q hq
    by_cases hqp : q = p
    · subst hqp
      exact hp.imp And.left And.right
    · rw [hreq q hqp, hheld q hqp]
      exact h.freedOnce q (halloc ▸ hq)
  · rw [hc]
    exact h.apart
  · intro i
    rw [hc]
    refine (h.callers i).congr (fun q _ hq => hin ▸ List.mem_cons_of_mem _ hq) ?_
    intro q _
    by_cases hqp : q = p
    · exact .inr ⟨hin ▸ hqp ▸ List.mem_cons_self, hqp ▸ hnot⟩
    · exact .inl (by rw [hreq q hqp])
  · intro q hq hw
    have hqp : q ≠ p := by
      rintro rfl
      exact hnot hq
    rw [hreq q hqp] at hw
    rw [hc]
    exact h.waited q (hin ▸ List.mem_cons_of_mem _ hq) hw
  · rw [hidle]
    nofun
  · rw [hidle]
    nofun

/-- The caller of a request that the service thread still has is waiting for it. -/
theorem LifeInv.hasWait_of_owns {s : TaskSys} (h : LifeInv s) {i p : ℕ}
    (hi : (s.callers i).owns = some p) (hp : p ∈ s.inService) : hasWait (s.requests p).flags := by
  have hok := h.callers i
  cases hc : s.callers i with
  | out rc => rw [hc] at hi; cases hi
  | filled q flags =>
    rw [hc] at hi hok
    cases hi
    exact absurd hp hok.1
  | queued q flags =>
    rw [hc] at hi hok
    by_cases hw : hasWait flags
    · obtain rfl : q = p := Option.some.inj ((if_pos hw).symm.trans hi)
      rwa [(hok hw).2 hp]
    · cases (if_neg hw).symm.trans hi
  | started q =>
    rw [hc] at hi hok
    cases hi
    exact absurd hp hok
  | taken q rc =>
    rw [hc] at hi hok
    cases hi
    exact absurd hp hok

/-- The owners after caller `i` has moved. -/
theorem owns_update {f : ℕ → Caller} {i j : ℕ} {c : Caller} :
    (Function.update f i c j).owns = if j = i then c.owns else (f j).owns := by
  split_ifs with hji
  · rw [hji, Function.update_self]
  · rw [Function.update_of_ne hji]

/-- A request that does not belong to caller `i` keeps having an owner when `i` moves. -/
theorem exists_owns_update {f : ℕ → Caller} {i p : ℕ} {c : Caller} (hi : (f i).owns ≠ some p)
    (h : ∃ j, (f j).owns = some p) : ∃ j, (Function.update f i c j).owns = some p := by
  obtain ⟨j, hj⟩ := h
  refine ⟨j, ?_⟩
  rw [owns_update, if_neg]
  · exact hj
  · rintro rfl
    exact hi hj

/-- A new request belongs to its caller. -/
theorem lifeInv_call {s : TaskSys} (h : LifeInv s) {i : ℕ} {task : NTask} {flags junk : ULONG}
    {rc : Option ULONG} (hc : s.callers i = .out rc) (hf : hasWait flags → ¬ hasStarted flags) :
    LifeInv { (s.setRequest s.allocated ⟨task, flags, junk, none, 0⟩).setCaller i
      (.filled s.allocated flags) with allocated := s.allocated + 1 } := by
  set s' : TaskSys := { (s.setRequest s.allocated ⟨task, flags, junk, none, 0⟩).setCaller i
      (.filled s.allocated flags) with allocated := s.allocated + 1 } with hs'
  have hself : s'.requests s.allocated = ⟨task, flags, junk, none, 0⟩ :=
    requests_setRequest_self ..
  have hother : ∀ p, p ≠ s.allocated → s'.requests p = s.requests p := fun p hp =>
    requests_setRequest_ne _ _ hp
  have hne : ∀ p, s.Held p → p ≠ s.allocated := fun p hp => (h.held p hp).1.ne
  have howns : ∀ j, (s'.callers j).owns = if j = i then some s.allocated else (s.callers j).owns :=
    fun _ => owns_update
  have hnone : (s.callers i).owns = none := by rw [hc]; rfl
  have hheld : ∀ p, s'.Held p → p = s.allocated ∨ s.Held p := by
    rintro p (hp | ⟨j, hj⟩)
    · exact .inr (.inl hp)
    · rw [howns] at hj
      split_ifs at hj with hji
      · exact .inl (Option.some.inj hj).symm
      · exact .inr (.inr ⟨j, hj⟩)
  have hnot : ∀ p, (s.callers i).owns ≠ some p := fun p => by
    rw [hnone]
    nofun
  have hheld' : ∀ p, s.Held p → s'.Held p := by
    rintro p (hp | hj)
    · exact .inl hp
    · exact .inr (exists_owns_update (hnot p) hj)
  refine ⟨h.nodup, ?_, ?_, ?_, ?_, ?_, ?_, ?_, h.inTime⟩
  · intro p hp
    rcases hheld p hp with rfl | hp
    · exact ⟨Nat.lt_succ_self _, by rw [hself]⟩
    · rw [hother p (hne p hp)]
      exact ⟨Nat.lt_succ_of_lt (h.held p hp).1, (h.held p hp).2⟩
  · intro p hp
    rcases Nat.lt_succ_iff_lt_or_eq.1 hp with hp | rfl
    · rw [hother p hp.ne]
      exact (h.freedOnce p hp).imp_left (hheld' p)
    · exact .inl (.inr ⟨i, by rw [howns, if_pos rfl]⟩)
  · intro j k p hj hk
    rw [howns] at hj hk
    split_ifs at hj hk with hji hki hki
    · rw [hji, hki]
    · exact absurd (Option.some.inj hj).symm (hne p (.inr ⟨k, hk⟩))
    · exact absurd (Option.some.inj hk).symm (hne p (.inr ⟨j, hj⟩))
    · exact h.apart j k p hj hk
  · intro j
    by_cases hji : j = i
    · rw [show s'.callers j = .filled s.allocated flags from by
        rw [hji]; exact callers_setCaller_self ..]
      exact ⟨fun hp => hne _ (.inl hp) rfl, by rw [hself], hf⟩
    · rw [show s'.callers j = s.callers j from callers_setCaller_ne _ _ hji]
      exact (h.callers j).congr (fun _ _ => id) fun p hp =>
        .inl (by rw [hother p (hne p (.inr ⟨j, hp⟩))])
  · intro p hp hw
    rw [hother p (hne p (.inl hp))] at hw
    exact exists_owns_update (hnot p) (h.waited p hp hw)
  · exact h.free_of_same rfl fun p hp => hother p (hne p (.inl hp))
  · exact h.setStarted_of_same rfl fun p hp => hother p (hne p (.inl hp))

/-- The service thread gets the request of a caller. -/
theorem lifeInv_enqueue {s : TaskSys} (h : LifeInv s) {i p : ℕ} {flags : ULONG}
    (hc : s.callers i = .filled p flags) : LifeInv (s.enqueue i p flags) := by
  have hown : (s.callers i).owns = some p := by rw [hc]; rfl
  obtain ⟨hnot, hf, hs⟩ : s.CallerOk (.filled p flags) := hc ▸ h.callers i
  have hin : (s.enqueue i p flags).inService = s.inService ++ [p] := List.append_assoc .. |>.symm
  have howns : ∀ j, ((s.enqueue i p flags).callers j).owns =
      if j = i then (if hasWait flags then some p else none) else (s.callers j).owns :=
    fun _ => owns_update
  have howns' : ∀ j q, ((s.enqueue i p flags).callers j).owns = some q →
      (s.callers j).owns = some q := by
    intro j q hj
    rw [howns] at hj
    split_ifs at hj with hji hw
    · rw [hji, hown, hj]
    · exact hj
  -- a request is held after the step exactly if it was before
  have hheld : ∀ q, (s.enqueue i p flags).Held q ↔ s.Held q := by
    intro q
    constructor
    · rintro (hq | ⟨j, hj⟩)
      · rcases List.mem_append.1 (hin ▸ hq) with hq | hq
        · exact .inl hq
        · exact .inr ⟨i, List.mem_singleton.1 hq ▸ hown⟩
      · exact .inr ⟨j, howns' j q hj⟩
    · rintro (hq | ⟨j, hj⟩)
      · exact .inl (hin ▸ List.mem_append_left _ hq)
      · by_cases hji : j = i
        · obtain rfl : p = q := Option.some.inj (hown.symm.trans (hji ▸ hj))
          exact .inl (hin ▸ List.mem_append_right _ (List.mem_singleton_self p))
        · exact .inr ⟨j, by rw [howns, if_neg hji, hj]⟩
  refine ⟨?_, ?_, ?_, ?_, ?_, ?_, h.free, h.setStarted, ?_⟩
  · rw [hin]
    exact h.nodup.append (List.nodup_singleton p) (List.disjoint_singleton.2 hnot)
  · intro q hq
    exact h.held q ((hheld q).1 hq)
  · intro q hq
    exact (h.freedOnce q hq).imp_left (hheld q).2
  · intro j k q hj hk
    exact h.apart j k q (howns' j q hj) (howns' k q hk)
  · intro j
    by_cases hji : j = i
    · rw [show (s.enqueue i p flags).callers j = .queued p flags from by
        rw [hji]; exact callers_setCaller_self ..]
      exact fun hw => ⟨hs hw, fun _ => hf⟩
    · rw [show (s.enqueue i p flags).callers j = s.callers j from callers_setCaller_ne _ _ hji]
      refine (h.callers j).congr ?_ fun _ _ => .inl rfl
      intro q hq hmem
      rcases List.mem_append.1 (hin ▸ hmem) with hmem | hmem
      · exact hmem
      · exact absurd (h.apart j i q hq (List.mem_singleton.1 hmem ▸ hown)) hji
  · intro q hq hw
    rcases List.mem_append.1 (hin ▸ hq) with hmem | hmem
    · refine exists_owns_update (fun hi => ?_) (h.waited q hmem hw)
      obtain rfl : p = q := Option.some.inj (hown.symm.trans hi)
      exact hnot hmem
    · obtain rfl := List.mem_singleton.1 hmem
      refine ⟨i, ?_⟩
      rw [howns, if_pos rfl, if_pos]
      exact hf ▸ hw
  · refine late_touch h.inTime ?_
    intro q hq
    rcases List.mem_cons.1 hq with rfl | hq
    · exact (h.held q (.inr ⟨i, hown⟩)).2
    · exact (h.held q (.inl (List.mem_append_right _ hq))).2

/-- The caller frees its request. -/
theorem lifeInv_release {s : TaskSys} (h : LifeInv s) {i p : ℕ} {rc : ULONG}
    (hc : s.callers i = .taken p rc) : LifeInv ((s.kfree p).setCaller i (.out (some rc))) := by
  set s' := (s.kfree p).setCaller i (.out (some rc)) with hs'
  have hown : (s.callers i).owns = some p := by rw [hc]; rfl
  have hnot : p ∉ s.inService := by
    have hok := h.callers i
    rwa [hc] at hok
  have hself : s'.requests p = { s.requests p with frees := (s.requests p).frees + 1 } :=
    requests_setRequest_self ..
  have hother : ∀ q, q ≠ p → s'.requests q = s.requests q := fun q hq =>
    requests_setRequest_ne _ _ hq
  have howns : ∀ j, (s'.callers j).owns = if j = i then none else (s.callers j).owns :=
    fun _ => owns_update
  have howns' : ∀ j q, (s'.callers j).owns = some q → (s.callers j).owns = some q ∧ q ≠ p := by
    intro j q hj
    rw [howns] at hj
    split_ifs at hj with hji
    refine ⟨hj, ?_⟩
    rintro rfl
    exact hji (h.apart j i q hj hown)
  have hnotOwn : ∀ q, q ≠ p → (s.callers i).owns ≠ some q := fun q hqp hi =>
    hqp (Option.some.inj (hi.symm.trans hown))
  have hheld : ∀ q, s'.Held q ↔ s.Held q ∧ q ≠ p := by
    intro q
    constructor
    · rintro (hq | ⟨j, hj⟩)
      · refine ⟨.inl hq, ?_⟩
        rintro rfl
        exact hnot hq
      · exact ⟨.inr ⟨j, (howns' j q hj).1⟩, (howns' j q hj).2⟩
    · rintro ⟨hq | hj, hqp⟩
      · exact .inl hq
      · exact .inr (exists_owns_update (hnotOwn q hqp) hj)
  have hfresh : (s.requests p).frees = 0 := (h.held p (.inr ⟨i, hown⟩)).2
  have hne : ∀ q ∈ s.inService, q ≠ p := by
    rintro q hq rfl
    exact hnot hq
  refine ⟨h.nodup, ?_, ?_, ?_, ?_, ?_, ?_, ?_, ?_⟩
  · intro q hq
    obtain ⟨hq, hqp⟩ := (hheld q).1 hq
    rw [hother q hqp]
    exact h.held q hq
  · intro q hq
    by_cases hqp : q = p
    · right
      rw [hqp, hself, hfresh]
    · rw [hother q hqp, hheld]
      exact (h.freedOnce q hq).imp_left fun hq => ⟨hq, hqp⟩
  · intro j k q hj hk
    exact h.apart j k q (howns' j q hj).1 (howns' k q hk).1
  · intro j
    by_cases hji : j = i
    · rw [show s'.callers j = .out (some rc) from by rw [hji]; exact callers_setCaller_self ..]
      trivial
    · rw [show s'.callers j = s.callers j from callers_setCaller_ne _ _ hji]
      refine (h.callers j).congr (fun _ _ => id) ?_
      intro q hq
      have hqp : q ≠ p := by
        rintro rfl
        exact hji (h.apart j i q hq hown)
      exact .inl (by rw [hother q hqp])
  · intro q hq hw
    rw [hother q (hne q hq)] at hw
    exact exists_owns_update (hnotOwn q (hne q hq)) (h.waited q hq hw)
  · exact h.free_of_same rfl fun q hq => hother q (hne q hq)
  · exact h.setStarted_of_same rfl fun q hq => hother q (hne q hq)
  · refine late_touch h.inTime ?_
    intro q hq
    obtain rfl := List.mem_singleton.1 hq
    exact hfresh

/-- The flag was not there from the beginning, so the service thread has set it. -/
theorem LifeInv.not_mem_of_started {s : TaskSys} (h : LifeInv s) {i p : ℕ} {flags : ULONG}
    (hc : s.callers i = .queued p flags) (hw : hasWait flags)
    (hs : hasStarted (s.requests p).flags) : p ∉ s.inService := by
  intro hp
  have hok := h.callers i
  rw [hc] at hok
  exact (hok hw).1 ((hok hw).2 hp ▸ hs)

theorem requests_create_self (s : TaskSys) (p : ℕ) (tid : ULONG) :
    (s.create p (some tid)).requests p = { s.requests p with tid := tid, stored := some tid } :=
  requests_setRequest_self ..

theorem requests_create_ne (s : TaskSys) {p q : ℕ} (hqp : q ≠ p) (tid : ULONG) :
    (s.create p (some tid)).requests q = s.requests q :=
  requests_setRequest_ne _ _ hqp

/-- `LXA_CreateThread` leaves the flags, and frees nothing. -/
theorem flags_create (s : TaskSys) (p q : ℕ) (tid : ULONG) :
    ((s.create p (some tid)).requests q).flags = (s.requests q).flags ∧
      ((s.create p (some tid)).requests q).frees = (s.requests q).frees := by
  by_cases hqp : q = p
  · rw [hqp, requests_create_self]
    exact ⟨rfl, rfl⟩
  · rw [requests_create_ne s hqp]
    exact ⟨rfl, rfl⟩

/-- The service thread frees a request for which nobody waits. -/
theorem LifeInv.freed {s : TaskSys} (h : LifeInv s) {p : ℕ} (hpc : s.service = .free p) :
    LifeInv ((s.kfree p).goto .idle) := by
  have hmem : p ∈ s.inService := mem_inService hpc List.mem_cons_self
  have hhand : s.service.inHand = [p] := by rw [hpc]; rfl
  have hcons : s.inService = p :: s.toStart := by rw [inService, hpc]; rfl
  have hself : ((s.kfree p).goto .idle).requests p = _ := requests_setRequest_self ..
  refine h.of_done hhand rfl rfl rfl rfl (fun q hq => requests_setRequest_ne _ _ hq)
    (.inr ⟨?_, ?_⟩) (h.late_touch (.inl hmem))
  · rintro (hp | ⟨i, hi⟩)
    · exact (List.nodup_cons.1 (hcons ▸ h.nodup)).1 hp
    · exact h.free p hpc (h.hasWait_of_owns hi hmem)
  · rw [hself, (h.held p (.inl hmem)).2]

/-- The service thread tells the caller that its request is started, and is done with it. -/
theorem LifeInv.started {s : TaskSys} (h : LifeInv s) {p : ℕ} (hpc : s.service = .setStarted p) :
    LifeInv (((s.touch [p]).setRequest p
      { s.requests p with flags := startTaskStarted }).goto .idle) := by
  have hmem : p ∈ s.inService := mem_inService hpc List.mem_cons_self
  have hhand : s.service.inHand = [p] := by rw [hpc]; rfl
  have hself : (((s.touch [p]).setRequest p { s.requests p with
    flags := startTaskStarted }).goto .idle).requests p = _ := requests_setRequest_self ..
  refine h.of_done hhand rfl rfl rfl rfl (fun q hq => requests_setRequest_ne _ _ hq)
    (.inl ⟨.inr (h.waited p hmem (h.setStarted p hpc)), ?_⟩) (h.late_touch (.inl hmem))
  rw [hself]
  exact (h.held p (.inl hmem)).2

/-- A caller that owns a request goes on with it. -/
theorem LifeInv.keeps {s : TaskSys} (h : LifeInv s) {i p : ℕ} {c : Caller}
    (hown : (s.callers i).owns = some p) (hc : c.owns = some p) (hok : s.CallerOk c) :
    LifeInv ((s.touch [p]).setCaller i c) :=
  h.of_caller rfl rfl rfl rfl rfl (hc.trans hown.symm) hok (h.late_touch (.inr ⟨i, hown⟩))

theorem lifeInv_step {s s' : TaskSys} {a : TaskAct} (h : LifeInv s) (hg : OwnFlags s a)
    (hst : Step s a s') : LifeInv s' := by
  have hhand : ∀ {pc p}, s.service = pc → p ∈ pc.inHand → (s.touch [p]).late = false :=
    fun hpc hp => h.late_touch (.inl (mem_inService hpc hp))
  have hin : ∀ {pc pc' : ServicePc}, s.service = pc → pc'.inHand = pc.inHand →
      pc'.inHand ++ s.toStart = s.inService := by
    intro pc pc' hpc hpc'
    rw [inService, hpc, hpc']
  cases hst with
  | wakeup => exact h.of_service rfl rfl rfl (fun _ => ⟨rfl, rfl⟩) h.free h.setStarted h.inTime
  | @move pc hm =>
    obtain ⟨hpc, hpc'⟩ := inHand_eq_nil_of_moves hm
    refine h.of_service rfl ?_ rfl (fun _ => ⟨rfl, rfl⟩) ?_ ?_ h.inTime
    · exact hin rfl (hpc'.trans hpc.symm)
    · intro p hp
      obtain rfl : pc = _ := hp
      cases hpc'
    · intro p hp
      obtain rfl : pc = _ := hp
      cases hpc'
  | reset hpc =>
    exact h.of_service rfl (hin hpc rfl) rfl (fun _ => ⟨rfl, rfl⟩) nofun nofun h.inTime
  | @pop p rest hpc hl =>
    refine h.of_service rfl ?_ rfl (fun _ => ⟨rfl, rfl⟩) nofun nofun
      (TaskSys.late_touch h.inTime ?_)
    · rw [inService, inService, hpc, hl]
      rfl
    · intro q hq
      exact (h.held q (.inl (List.mem_append_right _ (hl ▸ hq)))).2
  | fillPrev hpc =>
    exact h.of_service rfl (hin hpc rfl) rfl (fun _ => ⟨rfl, rfl⟩) nofun nofun
      (hhand hpc List.mem_cons_self)
  | fillEsp hpc =>
    exact h.of_service rfl (hin hpc rfl) rfl (fun _ => ⟨rfl, rfl⟩) nofun nofun
      (hhand hpc List.mem_cons_self)
  | fillEip hpc =>
    exact h.of_service rfl (hin hpc rfl) rfl (fun _ => ⟨rfl, rfl⟩) nofun nofun
      (hhand hpc List.mem_cons_self)
  | createFails hpc =>
    exact h.of_service rfl (hin hpc rfl) rfl (fun _ => ⟨rfl, rfl⟩) nofun nofun h.inTime
  | @create p tid hpc =>
    exact h.of_service rfl (hin hpc rfl) rfl (fun q => flags_create s p q tid) nofun nofun
      (hhand hpc List.mem_cons_self)
  | testWait hpc hf =>
    refine h.of_service rfl (hin hpc rfl) rfl (fun _ => ⟨rfl, rfl⟩) nofun ?_
      (hhand hpc List.mem_cons_self)
    rintro q ⟨⟩
    exact hf
  | testNoWait hpc hf =>
    refine h.of_service rfl (hin hpc rfl) rfl (fun _ => ⟨rfl, rfl⟩) ?_ nofun
      (hhand hpc List.mem_cons_self)
    rintro q ⟨⟩
    exact hf
  | free hpc => exact h.freed hpc
  | setStarted hpc => exact h.started hpc
  | callNoMemory hc =>
    exact h.of_caller rfl rfl rfl rfl rfl (by rw [hc]; rfl) trivial h.inTime
  | call hc => exact lifeInv_call h hc hg
  | enqueue hc hl => exact lifeInv_enqueue h hc
  | pollReturn hc hw =>
    exact h.of_caller rfl rfl rfl rfl rfl (by rw [hc]; exact (if_neg hw).symm) trivial h.inTime
  | pollAgain hc hw hs =>
    exact h.of_service rfl rfl rfl (fun _ => ⟨rfl, rfl⟩) h.free h.setStarted
      (h.late_touch (.inr ⟨_, by rw [hc]; exact if_pos hw⟩))
  | @pollStarted i p flags hc hw hs =>
    have hown : (s.callers i).owns = some p := by rw [hc]; exact if_pos hw
    exact h.keeps hown rfl (h.not_mem_of_started hc hw hs)
  | @take i p hc =>
    have hown : (s.callers i).owns = some p := by rw [hc]; rfl
    have hok := h.callers i
    rw [hc] at hok
    exact h.keeps hown rfl hok
  | release hc => exact lifeInv_release h hc
  | stubFails => exact h.of_service rfl rfl rfl (fun _ => ⟨rfl, rfl⟩) h.free h.setStarted h.inTime
  | stubEsp => exact h.of_service rfl rfl rfl (fun _ => ⟨rfl, rfl⟩) h.free h.setStarted h.inTime
  | stubEip => exact h.of_service rfl rfl rfl (fun _ => ⟨rfl, rfl⟩) h.free h.setStarted h.inTime
  | stubPrev => exact h.of_service rfl rfl rfl (fun _ => ⟨rfl, rfl⟩) h.free h.setStarted h.inTime

theorem lifeInv_init : LifeInv machine.init := by
  refine ⟨.nil, ?_, nofun, nofun, fun _ => trivial, nofun, nofun, nofun, rfl⟩
  rintro p (hp | ⟨i, hi⟩)
  · cases hp
  · cases hi

theorem lifeInv_run {as : List TaskAct} {s : TaskSys} (h : machine.Run OwnFlags machine.init as s) :
    LifeInv s :=
  h.invariant (fun _ _ _ hI hg hst => lifeInv_step hI hg (step_cases hst)) lifeInv_init

/-! ### The thread id -/

/-- `p->tid` is what `LXA_CreateThread` has stored there. -/
def HasTid (s : TaskSys) (p : ℕ) : Prop := (s.requests p).stored = some (s.requests p).tid

/-- A caller that has seen its request started finds the thread id there. -/
def TidOk (s : TaskSys) : Caller → Prop
  | .queued p flags => hasWait flags → p ∉ s.inService → s.HasTid p
  | .started p => s.HasTid p
  | .taken p rc => (s.requests p).stored = some rc
  | _ => True

/-- The invariant: nobody is told of a thread that was not created. -/
structure TidInv (s : TaskSys) : Prop where
  /-- Every caller finds its thread id. -/
  callers : ∀ i, s.TidOk (s.callers i)
  /-- The service thread has stored it for those who wait. -/
  service : ∀ p ∈ s.service.created, hasWait (s.requests p).flags → s.HasTid p

theorem TidOk.congr {s s' : TaskSys} {c : Caller} (h : s.TidOk c) (hok : s.CallerOk c)
    (hreq : ∀ p, c.owns = some p → p ∉ s.inService →
      (s'.requests p).stored = (s.requests p).stored ∧ (s'.requests p).tid = (s.requests p).tid)
    (hin : ∀ p, c.owns = some p → p ∈ s.inService → p ∈ s'.inService ∨ s'.HasTid p) :
    s'.TidOk c := by
  have htid : ∀ p, c.owns = some p → p ∉ s.inService → s.HasTid p → s'.HasTid p := by
    intro p hp hnot hs
    rw [HasTid, (hreq p hp hnot).1, (hreq p hp hnot).2]
    exact hs
  cases c with
  | out => trivial
  | filled => trivial
  | queued p flags =>
    intro hw hnot
    have hown : (Caller.queued p flags).owns = some p := if_pos hw
    by_cases hp : p ∈ s.inService
    · exact (hin p hown hp).resolve_left hnot
    · exact htid p hown hp (h hw hp)
  | started p => exact htid p rfl hok h
  | taken p rc => exact (hreq p rfl hok).1.trans h

theorem stored_kfree (s : TaskSys) (p q : ℕ) :
    ((s.kfree p).requests q).stored = (s.requests q).stored ∧
      ((s.kfree p).requests q).tid = (s.requests q).tid ∧
      ((s.kfree p).requests q).flags = (s.requests q).flags := by
  by_cases hqp : q = p
  · subst hqp
    have hself : (s.kfree q).requests q = _ := requests_setRequest_self ..
    rw [hself]
    exact ⟨rfl, rfl, rfl⟩
  · have hother : (s.kfree p).requests q = s.requests q := requests_setRequest_ne _ _ hqp
    rw [hother]
    exact ⟨rfl, rfl, rfl⟩

/-- What a step of the service thread has to show. -/
theorem TidInv.of_service {s s' : TaskSys} (h : TidInv s) (hl : LifeInv s)
    (hc : s'.callers = s.callers)
    (hreq : ∀ p, p ∉ s.inService → (s'.requests p).stored = (s.requests p).stored ∧
      (s'.requests p).tid = (s.requests p).tid)
    (hin : ∀ p, p ∈ s.inService → (∃ i, (s.callers i).owns = some p) →
      p ∈ s'.inService ∨ s'.HasTid p)
    (hpc : ∀ p ∈ s'.service.created, hasWait (s'.requests p).flags → s'.HasTid p) :
    TidInv s' := by
  refine ⟨fun i => ?_, hpc⟩
  rw [hc]
  exact (h.callers i).congr (hl.callers i) (fun p _ hp => hreq p hp)
    fun p hi hp => hin p hp ⟨i, hi⟩

/-- A step that leaves the requests as they are, and in its hand what it had there. -/
theorem TidInv.of_inHand {s s' : TaskSys} (h : TidInv s) (hl : LifeInv s)
    (hc : s'.callers = s.callers) (hreq : s'.requests = s.requests)
    (hlist : s'.toStart = s.toStart) {pc : ServicePc} (hs : s.service = pc)
    (hin : s'.service.inHand = pc.inHand)
    (hpc : ∀ p ∈ s'.service.created, hasWait (s'.requests p).flags → s'.HasTid p) :
    TidInv s' := by
  refine h.of_service hl hc ?_ ?_ hpc
  · intro p _
    rw [hreq]
    exact ⟨rfl, rfl⟩
  · intro p hp _
    left
    rwa [inService, hin, hlist, ← hs]

/-- What a step of a caller has to show. -/
theorem TidInv.of_caller {s s' : TaskSys} (h : TidInv s) (hl : LifeInv s) {i : ℕ} {c : Caller}
    (hc : s'.callers = Function.update s.callers i c)
    (hreq : ∀ p, s.Held p → (s'.requests p).stored = (s.requests p).stored ∧
      (s'.requests p).tid = (s.requests p).tid ∧ (s'.requests p).flags = (s.requests p).flags)
    (hpc : s'.service = s.service) (hin : ∀ p ∈ s.inService, p ∈ s'.inService)
    (hok : s'.TidOk c) : TidInv s' := by
  refine ⟨fun j => ?_, ?_⟩
  · by_cases hji : j = i
    · rwa [hc, hji, Function.update_self]
    · rw [hc, Function.update_of_ne hji]
      refine (h.callers j).congr (hl.callers j) ?_ fun p _ hp => .inl (hin p hp)
      intro p hp _
      exact ⟨(hreq p (.inr ⟨j, hp⟩)).1, (hreq p (.inr ⟨j, hp⟩)).2.1⟩
  · rw [hpc]
    intro p hp hw
    have hmem : p ∈ s.service.inHand := s.service.created_subset_inHand hp
    obtain ⟨hstored, htid, hflags⟩ := hreq p (.inl (List.mem_append_left _ hmem))
    rw [hflags] at hw
    rw [HasTid, hstored, htid]
    exact h.service p hp hw

/-- The thread id is stored for the request in hand; no caller relies on another one yet. -/
theorem TidInv.created {s : TaskSys} (h : TidInv s) (hl : LifeInv s) {p : ℕ} {tid : ULONG}
    (hpc : s.service = .create p) : TidInv (s.create p (some tid)) := by
  refine h.of_service hl rfl ?_ ?_ ?_
  · intro q hq
    have hqp : q ≠ p := by
      rintro rfl
      exact hq (mem_inService hpc List.mem_cons_self)
    rw [requests_create_ne s hqp]
    exact ⟨rfl, rfl⟩
  · intro q hq _
    rw [inService, hpc] at hq
    exact .inl hq
  · intro q hq _
    obtain rfl := List.mem_singleton.1 hq
    rw [HasTid, requests_create_self]

/-- Nobody waits for a request that is freed. -/
theorem TidInv.freed {s : TaskSys} (h : TidInv s) (hl : LifeInv s) {p : ℕ}
    (hpc : s.service = .free p) : TidInv ((s.kfree p).goto .idle) := by
  refine h.of_service hl rfl (fun q _ => ?_) ?_ nofun
  · exact ⟨(stored_kfree s p q).1, (stored_kfree s p q).2.1⟩
  · rintro q hq ⟨i, hi⟩
    have hqp : q ≠ p := by
      rintro rfl
      exact hl.free q hpc (hl.hasWait_of_owns hi hq)
    rw [inService, hpc] at hq
    exact .inl ((List.mem_cons.1 hq).resolve_left hqp)

/-- The request that is started has its thread id. -/
theorem TidInv.started {s : TaskSys} (h : TidInv s) (hl : LifeInv s) {p : ℕ}
    (hpc : s.service = .setStarted p) :
    TidInv (((s.touch [p]).setRequest p
      { s.requests p with flags := startTaskStarted }).goto .idle) := by
  have hmem : p ∈ s.inService := mem_inService hpc List.mem_cons_self
  have hself : (((s.touch [p]).setRequest p { s.requests p with
    flags := startTaskStarted }).goto .idle).requests p = _ := requests_setRequest_self ..
  have hother : ∀ q, q ≠ p → (((s.touch [p]).setRequest p { s.requests p with
      flags := startTaskStarted }).goto .idle).requests q = s.requests q :=
    fun q hq => requests_setRequest_ne _ _ hq
  refine h.of_service hl rfl ?_ ?_ nofun
  · intro q hq
    rw [hother q (by rintro rfl; exact hq hmem)]
    exact ⟨rfl, rfl⟩
  · rintro q hq -
    by_cases hqp : q = p
    · subst hqp
      right
      rw [HasTid, hself]
      exact h.service q (hpc ▸ List.mem_cons_self) (hl.setStarted q hpc)
    · rw [inService, hpc] at hq
      exact .inl ((List.mem_cons.1 hq).resolve_left hqp)

theorem tidInv_step {s s' : TaskSys} {a : TaskAct} (h : TidInv s) (hl : LifeInv s)
    (hg : Stores s a) (hst : Step s a s') : TidInv s' := by
  cases hst with
  | @move pc hm =>
    obtain ⟨hpc, hpc'⟩ := inHand_eq_nil_of_moves hm
    refine h.of_inHand hl rfl rfl rfl rfl (hpc'.trans hpc.symm) ?_
    intro p hp
    have := pc.created_subset_inHand hp
    rw [hpc'] at this
    cases this
  | reset hpc => exact h.of_inHand hl rfl rfl rfl hpc rfl nofun
  | @pop p rest hpc hlist =>
    refine h.of_service hl rfl (fun _ _ => ⟨rfl, rfl⟩) (fun q hq _ => .inl ?_) nofun
    rw [inService, hpc, hlist] at hq
    exact hq
  | fillPrev hpc => exact h.of_inHand hl rfl rfl rfl hpc rfl nofun
  | fillEsp hpc => exact h.of_inHand hl rfl rfl rfl hpc rfl nofun
  | fillEip hpc => exact h.of_inHand hl rfl rfl rfl hpc rfl nofun
  | createFails hpc =>
    refine h.of_inHand hl rfl rfl rfl hpc rfl ?_
    intro q hq hw
    obtain rfl := List.mem_singleton.1 hq
    exact absurd hw (hg q hpc)
  | create hpc => exact h.created hl hpc
  | @testWait p hpc hf =>
    refine h.of_inHand hl rfl rfl rfl hpc rfl ?_
    intro q hq _
    obtain rfl := List.mem_singleton.1 hq
    exact h.service q (hpc ▸ List.mem_cons_self) hf
  | testNoWait hpc => exact h.of_inHand hl rfl rfl rfl hpc rfl nofun
  | free hpc => exact h.freed hl hpc
  | setStarted hpc => exact h.started hl hpc
  | callNoMemory hc =>
    exact h.of_caller hl rfl (fun _ _ => ⟨rfl, rfl, rfl⟩) rfl (fun _ => id) trivial
  | @call i task flags b junk rc hc =>
    refine h.of_caller hl rfl ?_ rfl (fun _ => id) trivial
    intro p hp
    have hother : (s.setRequest s.allocated ⟨task, startFlags b flags, junk, none, 0⟩).requests p =
        s.requests p := requests_setRequest_ne _ _ (hl.held p hp).1.ne
    refine ⟨congrArg NewTask.stored hother, congrArg NewTask.tid hother, ?_⟩
    exact congrArg NewTask.flags hother
  | @enqueue i p flags hc =>
    have hmem : ∀ q, q ∈ s.inService ++ [p] → q ∈ (s.enqueue i p flags).inService := by
      intro q hq
      rwa [inService, List.append_assoc] at hq
    refine h.of_caller hl rfl (fun _ _ => ⟨rfl, rfl, rfl⟩) rfl ?_ ?_
    · exact fun q hq => hmem q (List.mem_append_left _ hq)
    · exact fun _ hp => absurd (hmem p (List.mem_append_right _ (List.mem_singleton_self p))) hp
  | pollReturn => exact h.of_caller hl rfl (fun _ _ => ⟨rfl, rfl, rfl⟩) rfl (fun _ => id) trivial
  | @pollStarted i p flags hc hw hs =>
    refine h.of_caller hl rfl (fun _ _ => ⟨rfl, rfl, rfl⟩) rfl (fun _ => id) ?_
    have hok := h.callers i
    rw [hc] at hok
    exact hok hw (hl.not_mem_of_started hc hw hs)
  | @take i p hc =>
    refine h.of_caller hl rfl (fun _ _ => ⟨rfl, rfl, rfl⟩) rfl (fun _ => id) ?_
    have hok := h.callers i
    rwa [hc] at hok
  | @release i p rc hc =>
    exact h.of_caller hl rfl (fun q _ => stored_kfree s p q) rfl (fun _ => id) trivial
  | _ => exact ⟨h.callers, h.service⟩

theorem Stores.ownFlags {s : TaskSys} {a : TaskAct} (h : Stores s a) : OwnFlags s a := by
  cases a with
  | create tid => trivial
  | _ => exact h

theorem tidInv_init : TidInv machine.init := ⟨fun _ => trivial, nofun⟩

/-- **The life of a request.**  No request is used after its `kfree`; one that somebody still holds
has not been freed and one that nobody holds any more has been freed once; and what a caller that
waits returns is the thread id that was stored for its request. -/
theorem lifetime {as : List TaskAct} {s : TaskSys} (h : machine.Run Stores machine.init as s) :
    s.late = false ∧
    (∀ p < s.allocated, (s.Held p ∧ (s.requests p).frees = 0) ∨
      (¬ s.Held p ∧ (s.requests p).frees = 1)) ∧
    ∀ i p rc, s.callers i = .taken p rc → (s.requests p).stored = some rc := by
  have hI : LifeInv s ∧ TidInv s := by
    have hstep : ∀ t a t', (LifeInv t ∧ TidInv t) → Stores t a → machine.step t a = some t' →
        LifeInv t' ∧ TidInv t' := by
      rintro t a t' ⟨hl, ht⟩ hg hst
      exact ⟨lifeInv_step hl hg.ownFlags (step_cases hst), tidInv_step ht hl hg (step_cases hst)⟩
    exact h.invariant hstep ⟨lifeInv_init, tidInv_init⟩
  obtain ⟨hl, ht⟩ := hI
  refine ⟨hl.inTime, ?_, ?_⟩
  · intro p hp
    by_cases hheld : s.Held p
    · exact .inl ⟨hheld, (hl.held p hheld).2⟩
    · exact .inr ⟨hheld, (hl.freedOnce p hp).resolve_left hheld⟩
  · intro i p rc hc
    have hok := ht.callers i
    rwa [hc] at hok

/-! ### Runs -/

/-- A caller waits for its thread, `kmalloc` has left `99` in `p->tid`, and the creation fails. -/
def failedWait : List TaskAct :=
  [.call 0 ⟨1, 2, 3⟩ startTaskWait false 99 true, .enqueue 0] ++ toCreate ++
    [.create none, .service, .service, .poll 0, .take 0]

/-- The caller returns `99`, and no thread id has been stored for it. -/
theorem not_stored_failedWait : ∃ s, machine.exec machine.init failedWait = some s ∧
    s.callers 0 = .taken 0 99 ∧ (s.requests 0).stored = none ∧
    ¬ ∀ i p rc, s.callers i = .taken p rc → (s.requests p).stored = some rc := by
  have h : ∃ s, machine.exec machine.init failedWait = some s ∧
      s.callers 0 = .taken 0 99 ∧ (s.requests 0).stored = none := ⟨_, rfl, rfl, rfl⟩
  obtain ⟨s, hrun, hc, hstored⟩ := h
  refine ⟨s, hrun, hc, hstored, ?_⟩
  intro hall
  cases (hall 0 0 99 hc).symm.trans hstored

/-- The same with a creation that succeeds, and a second caller in interrupt context whose wait flag
is taken away. -/
def goodWait : List TaskAct :=
  [.call 0 ⟨1, 2, 3⟩ startTaskWait false 99 true, .enqueue 0,
    .call 1 ⟨4, 5, 6⟩ startTaskWait true 98 true, .enqueue 1] ++ toCreate ++
    [.create (some 7), .service, .poll 0, .service, .poll 1, .poll 0, .take 0]

def storesTest (_ : TaskSys) : TaskAct → Bool
  | .create tid => tid.isSome
  | .call _ _ flags inInterrupt _ _ =>
    !(decide (hasWait (startFlags inInterrupt flags)) &&
      decide (hasStarted (startFlags inInterrupt flags)))
  | _ => true

theorem stores_of_test (s : TaskSys) (a : TaskAct) (h : storesTest s a = true) : s.Stores a := by
  cases a with
  | create tid =>
    cases tid with
    | none => cases h
    | some tid => trivial
  | call i task flags inInterrupt junk alloc =>
    intro hw hs
    simp [storesTest, hw, hs] at h
  | _ => trivial

theorem run_goodWait : ∃ s, machine.Run Stores machine.init goodWait s ∧
    s.callers 0 = .taken 0 7 ∧ s.callers 1 = .out (some 0) := by
  have h : ∃ s, machine.exec machine.init goodWait = some s ∧ s.callers 0 = .taken 0 7 ∧
      s.callers 1 = .out (some 0) := ⟨_, rfl, rfl, rfl⟩
  obtain ⟨s, hrun, h0, h1⟩ := h
  exact ⟨s, Machine.run_of_check stores_of_test hrun rfl, h0, h1⟩

/-- `lifetime` on this run. -/
theorem lifetime_goodWait : ∃ s, machine.exec machine.init goodWait = some s ∧
    s.callers 0 = .taken 0 7 ∧ s.callers 1 = .out (some 0) ∧ s.late = false ∧
    (s.requests 0).stored = some 7 := by
  obtain ⟨s, hrun, h0, h1⟩ := run_goodWait
  obtain ⟨hlate, -, htid⟩ := lifetime hrun
  exact ⟨s, hrun.exec_eq, h0, h1, hlate, htid 0 0 7 h0⟩

end TaskSys

end LxApi32
