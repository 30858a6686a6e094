import LxApi32.Task.Mailbox

/-!
# Handing a request over to its thread

A new thread takes the three words of its request out of `lx_started_task` with three exchanges,
and between the second and the third it runs `LX_add_this_current`.  The service thread takes the
mailbox for empty as soon as all three words are zero.  If the argument of a request is zero, that
is so after the second exchange already, and the service thread may put the argument of the next
request into the mailbox, which the first thread then takes (`TaskSys.not_handed_over_slowStub`).

* `TaskSys.handed_over` : otherwise the threads are created in the order of the queue, one for each
  request, every thread calls its entry point with the three words of its own request, and all
  requests can be served.
* `TaskSys.mixed_of_not_handsOver` : every other argument that comes while a thread is still in
  `LX_add_this_current` goes to the wrong thread, if that thread is the next to move.
-/

namespace LxApi32

/-- The service thread has put an entry point into the mailbox and not yet created the thread. -/
def ServicePc.hasEip : ServicePc → Bool
  | .create _ => true
  | _ => false

/-- The service thread has put an argument into the mailbox and not yet created the thread. -/
def ServicePc.hasPrev : ServicePc → Bool
  | .fillEsp _ | .fillEip _ | .create _ => true
  | _ => false

/-- The service thread has found no entry point in the mailbox and not yet put one into it. -/
def ServicePc.sawNoEip : ServicePc → Bool
  | .testEsp | .testPrev | .testList | .lock | .fillPrev _ | .fillEsp _ | .fillEip _ => true
  | _ => false

/-- The service thread has found no argument in the mailbox and not yet put one into it. -/
def ServicePc.sawNoPrev : ServicePc → Bool
  | .testList | .lock | .fillPrev _ => true
  | _ => false

/-- The request that the service thread is about to create a thread for. -/
def ServicePc.beingCreated : ServicePc → List ℕ
  | .fillPrev p | .fillEsp p | .fillEip p | .create p => [p]
  | _ => []

namespace TaskSys

/-- The requests that a step puts into the queue, with their words. -/
def queuedBy (s : TaskSys) : TaskAct → List (ℕ × NTask)
  | .enqueue i =>
    match s.callers i with
    | .filled p _ => [(p, (s.requests p).task)]
    | _ => []
  | _ => []

/-- The requests for which a step creates a thread. -/
def createdBy (s : TaskSys) : TaskAct → List ℕ
  | .create (some _) =>
    match s.service with
    | .create p => [p]
    | _ => []
  | _ => []

/-- The threads that call their entry points, with the words they have taken. -/
def calledBy (s : TaskSys) : TaskAct → List (ℕ × NTask)
  | .stub k =>
    match s.stubs[k]? with
    | some ⟨p, .eip esp eip⟩ => [(p, ⟨esp, eip, s.mailbox.prev⟩)]
    | _ => []
  | _ => []

/-- Every creation succeeds, every request has a stack and an entry point, and an argument that
comes while a thread is still before its last exchange is zero. -/
def HandsOver (s : TaskSys) : TaskAct → Prop
  | .create none => False
  | .call _ task _ _ _ _ => task.esp ≠ 0 ∧ task.eip ≠ 0
  | .service => ∀ p, s.service = .fillPrev p → s.stubs ≠ [] → (s.requests p).task.prev = 0
  | _ => True

theorem HandsOver.starts {s : TaskSys} {a : TaskAct} (h : HandsOver s a) : Starts s a := by
  cases a with
  | create tid =>
    cases tid with
    | none => exact h
    | some tid => trivial
  | call => exact h.1
  | _ => trivial

/-! ### The order of the queue -/

/-- The request that the service thread is about to create a thread for, and the queue. -/
def waiting (s : TaskSys) : List ℕ := s.service.beingCreated ++ s.toStart

theorem beingCreated_of_moves {s : TaskSys} {pc : ServicePc} (h : s.Moves pc) :
    s.service.beingCreated = [] ∧ pc.beingCreated = [] := by
  cases h <;> simp_all [ServicePc.beingCreated]

/-- One step: what comes into the queue, and what leaves it for a thread. -/
theorem waiting_step {s s' : TaskSys} {a : TaskAct} (hg : Starts s a) (hst : Step s a s') :
    s.waiting ++ (s.queuedBy a).map Prod.fst = s.createdBy a ++ s'.waiting := by
  cases hst with
  | move hm =>
    obtain ⟨hpc, hpc'⟩ := beingCreated_of_moves hm
    simp [waiting, queuedBy, createdBy, goto, hpc, hpc']
  | reset hpc => simp [waiting, queuedBy, createdBy, hpc, ServicePc.beingCreated]
  | pop hpc hl => simp [waiting, queuedBy, createdBy, hpc, hl, ServicePc.beingCreated]
  | fillPrev hpc => simp [waiting, queuedBy, createdBy, hpc, touch, ServicePc.beingCreated]
  | fillEsp hpc => simp [waiting, queuedBy, createdBy, hpc, touch, ServicePc.beingCreated]
  | fillEip hpc => simp [waiting, queuedBy, createdBy, hpc, touch, ServicePc.beingCreated]
  | createFails => exact hg.elim
  | create hpc =>
    simp [waiting, queuedBy, createdBy, create, goto, setRequest, touch, hpc,
      ServicePc.beingCreated]
  | testWait hpc => simp [waiting, queuedBy, createdBy, goto, touch, hpc, ServicePc.beingCreated]
  | testNoWait hpc => simp [waiting, queuedBy, createdBy, goto, touch, hpc, ServicePc.beingCreated]
  | free hpc =>
    simp [waiting, queuedBy, createdBy, goto, kfree, setRequest, touch, hpc,
      ServicePc.beingCreated]
  | setStarted hpc =>
    simp [waiting, queuedBy, createdBy, goto, setRequest, touch, hpc, ServicePc.beingCreated]
  | enqueue hc =>
    simp [waiting, queuedBy, createdBy, enqueue, setCaller, touch, hc]
  | _ => exact List.append_nil _

/-! ### Every request is queued once -/

/-- The requests of the list have been allocated and have these words. -/
def Known (l : List (ℕ × NTask)) (s : TaskSys) : Prop :=
  ∀ c ∈ l, c.1 < s.allocated ∧ (s.requests c.1).task = c.2

theorem known_step {l : List (ℕ × NTask)} {s s' : TaskSys} {a : TaskAct} (h : Known l s)
    (hst : Step s a s') : Known l s' := by
  intro c hc
  obtain ⟨hlt, htask⟩ := h c hc
  obtain ⟨hlt', htask'⟩ := task_of_step hst hlt
  exact ⟨hlt', htask'.trans htask⟩

/-- The invariant: a filled request has not been queued yet, and belongs to one caller. -/
structure QueueInv (l : List (ℕ × NTask)) (s : TaskSys) : Prop where
  /-- No request was queued twice. -/
  nodup : (l.map Prod.fst).Nodup
  /-- The queued requests have been allocated, and keep their words. -/
  queued : Known l s
  /-- A filled request has been allocated, and not been queued. -/
  filled : ∀ i p flags, s.callers i = .filled p flags → p < s.allocated ∧ p ∉ l.map Prod.fst
  /-- It belongs to one caller. -/
  apart : ∀ i j p flags flags', s.callers i = .filled p flags → s.callers j = .filled p flags' →
    i = j

/-- A request that is filled after a step was so before, or has just been allocated. -/
theorem filled_of_step {s s' : TaskSys} {a : TaskAct} {i p : ℕ} {flags : ULONG}
    (hst : Step s a s') (h : s'.callers i = .filled p flags) :
    (s.callers i = .filled p flags ∧ a ≠ .enqueue i) ∨
      (p = s.allocated ∧ s'.allocated = s.allocated + 1 ∧
        ∃ task flags b junk, a = .call i task flags b junk true) := by
  cases hst with
  | callNoMemory => exact .inl ⟨(filled_of_update h (by simp)).1, nofun⟩
  | @call j task flags' b junk rc hc =>
    by_cases hij : i = j
    · subst hij
      have hp := (Caller.filled.inj ((Function.update_self ..).symm.trans h)).1
      exact .inr ⟨hp.symm, rfl, _, _, _, _, rfl⟩
    · exact .inl ⟨(Function.update_of_ne hij ..).symm.trans h, nofun⟩
  | enqueue =>
    obtain ⟨h, hij⟩ := filled_of_update h (by simp)
    exact .inl ⟨h, fun heq => hij (TaskAct.enqueue.inj heq).symm⟩
  | pollReturn => exact .inl ⟨(filled_of_update h (by simp)).1, nofun⟩
  | pollStarted => exact .inl ⟨(filled_of_update h (by simp)).1, nofun⟩
  | take => exact .inl ⟨(filled_of_update h (by simp)).1, nofun⟩
  | release => exact .inl ⟨(filled_of_update h (by simp)).1, nofun⟩
  | _ => exact .inl ⟨h, nofun⟩

/-- What a step puts into the queue is the request of the caller that queues it. -/
theorem queuedBy_cases (s : TaskSys) (a : TaskAct) :
    s.queuedBy a = [] ∨ ∃ i p flags, a = .enqueue i ∧ s.callers i = .filled p flags ∧
      s.queuedBy a = [(p, (s.requests p).task)] := by
  cases a with
  | enqueue i =>
    cases hc : s.callers i with
    | filled p flags => exact .inr ⟨i, p, flags, rfl, hc, by simp only [queuedBy, hc]⟩
    | _ => exact .inl (by simp only [queuedBy, hc])
  | _ => exact .inl rfl

theorem queueInv_step {l : List (ℕ × NTask)} {s s' : TaskSys} {a : TaskAct} (h : QueueInv l s)
    (hst : Step s a s') : QueueInv (l ++ s.queuedBy a) s' := by
  have hmem : ∀ c ∈ s.queuedBy a, ∃ i p flags, a = .enqueue i ∧
      s.callers i = .filled p flags ∧ c = (p, (s.requests p).task) := by
    intro c hc
    rcases queuedBy_cases s a with hnone | ⟨i, p, flags, ha, hi, hone⟩
    · rw [hnone] at hc
      cases hc
    · rw [hone] at hc
      exact ⟨i, p, flags, ha, hi, List.mem_singleton.1 hc⟩
  refine ⟨?_, ?_, ?_, ?_⟩
  · rcases queuedBy_cases s a with hnone | ⟨i, p, flags, -, hi, hone⟩
    · rw [hnone, List.append_nil]
      exact h.nodup
    · rw [hone, List.map_append]
      refine List.Nodup.append h.nodup (List.nodup_singleton _) ?_
      rw [List.map_singleton, List.disjoint_singleton]
      exact (h.filled i p flags hi).2
  · refine known_step ?_ hst
    intro c hc
    rcases List.mem_append.1 hc with hc | hc
    · exact h.queued c hc
    · obtain ⟨i, p, flags, -, hi, rfl⟩ := hmem c hc
      exact ⟨(h.filled i p flags hi).1, rfl⟩
  · intro i p flags hi
    rcases filled_of_step hst hi with ⟨hi, ha⟩ | ⟨rfl, halloc, task, flags', b, junk, rfl⟩
    · obtain ⟨hlt, hnot⟩ := h.filled i p flags hi
      refine ⟨(task_of_step hst hlt).1, ?_⟩
      rw [List.map_append, List.mem_append, not_or]
      refine ⟨hnot, ?_⟩
      -- another caller's request is another request
      intro hp
      obtain ⟨c, hc, rfl⟩ := List.mem_map.1 hp
      obtain ⟨j, q, flags', rfl, hj, rfl⟩ := hmem c hc
      exact ha (congrArg TaskAct.enqueue (h.apart j i q flags' flags hj hi))
    · refine ⟨halloc ▸ Nat.lt_succ_self _, ?_⟩
      rw [show s.queuedBy _ = [] from rfl, List.append_nil]
      intro hp
      obtain ⟨c, hc, hc'⟩ := List.mem_map.1 hp
      exact (h.queued c hc).1.ne hc'
  · intro i j p flags flags' hi hj
    rcases filled_of_step hst hi with ⟨hi, -⟩ | ⟨rfl, -, task, f, b, junk, rfl⟩
    · rcases filled_of_step hst hj with ⟨hj, -⟩ | ⟨rfl, -, -⟩
      · exact h.apart i j p flags flags' hi hj
      · exact absurd (h.filled i _ flags hi).1 (Nat.lt_irrefl _)
    · rcases filled_of_step hst hj with ⟨hj, -⟩ | ⟨-, -, task', f', b', junk', ha⟩
      · exact absurd (h.filled j _ flags' hj).1 (Nat.lt_irrefl _)
      · exact (TaskAct.call.inj ha).1

theorem queueInv_init : QueueInv [] machine.init :=
  ⟨.nil, nofun, nofun, nofun⟩

/-! ### The words in the mailbox -/

end TaskSys

/-- The words that the thread has taken and those in the mailbox are together those of its
request. -/
def NewThread.Holds (x : NewThread) (task m : NTask) : Prop :=
  match x.stub with
  | .start => m = task
  | .esp esp => ⟨esp, m.eip, m.prev⟩ = task
  | .eip esp eip => ⟨esp, eip, m.prev⟩ = task

/-- The words that the service thread has put into the mailbox are those of the request. -/
def ServicePc.Filled (tasks : ℕ → NTask) (m : NTask) : ServicePc → Prop
  | .fillEsp p => m.prev = (tasks p).prev
  | .fillEip p => m.prev = (tasks p).prev ∧ m.esp = (tasks p).esp
  | .create p => m = tasks p
  | _ => True

theorem NewThread.Holds.of_prev {x : NewThread} {task m m' : NTask} (h : x.Holds task m)
    (hx : x.beforeEip = false) (hm : m'.prev = m.prev) : x.Holds task m' := by
  obtain ⟨p, x⟩ := x
  cases x with
  | start => cases hx
  | esp => cases hx
  | eip esp eip =>
    change (⟨esp, eip, m'.prev⟩ : NTask) = task
    rw [hm]
    exact h

theorem ServicePc.Filled.congr {pc : ServicePc} {tasks tasks' : ℕ → NTask} {m : NTask}
    (h : pc.Filled tasks m) (ht : ∀ p ∈ pc.inHand, tasks' p = tasks p) : pc.Filled tasks' m := by
  cases pc with
  | fillEsp p => simpa only [Filled, ht p List.mem_cons_self] using h
  | fillEip p => simpa only [Filled, ht p List.mem_cons_self] using h
  | create p => simpa only [Filled, ht p List.mem_cons_self] using h
  | _ => trivial

/-- A thread that takes its stack takes none that the service thread has just put there. -/
theorem ServicePc.Filled.of_esp {pc : ServicePc} {tasks : ℕ → NTask} {m m' : NTask}
    (h : pc.Filled tasks m) (he : pc.hasEsp = false) (hm : m'.prev = m.prev) :
    pc.Filled tasks m' := by
  cases pc with
  | fillEsp p => exact hm.trans h
  | fillEip p => cases he
  | create p => cases he
  | _ => trivial

/-- Nor an entry point. -/
theorem ServicePc.Filled.of_eip {pc : ServicePc} {tasks : ℕ → NTask} {m m' : NTask}
    (h : pc.Filled tasks m) (he : pc.hasEip = false) (hm : m'.prev = m.prev)
    (hm' : m'.esp = m.esp) : pc.Filled tasks m' := by
  cases pc with
  | fillEsp p => exact hm.trans h
  | fillEip p => exact ⟨hm.trans h.1, hm'.trans h.2⟩
  | create p => cases he
  | _ => trivial

namespace TaskSys

/-- The invariant: the words of a request stay together. -/
structure HandOverInv (s : TaskSys) : Prop where
  /-- The threads are never without a stack. -/
  mailbox : MailboxInv s
  /-- The requests on their way come with an entry point. -/
  pending : PendingAll (fun task => task.eip ≠ 0) s
  /-- A thread before its second exchange, or about to be created, has its entry point in the
  mailbox, and there is no other such thread. -/
  eips : s.stubs.countP NewThread.beforeEip + (if s.service.hasEip then 1 else 0) =
    if s.mailbox.eip = 0 then 0 else 1
  /-- The service thread goes on only if it finds no entry point. -/
  noEip : s.service.sawNoEip = true → s.mailbox.eip = 0
  /-- It goes on only if it finds no argument. -/
  noPrev : s.service.sawNoPrev = true → s.mailbox.prev = 0
  /-- It copies the words of one request. -/
  filled : s.service.Filled (fun p => (s.requests p).task) s.mailbox
  /-- Every thread takes the words of its own request. -/
  threads : ∀ x ∈ s.stubs, x.request < s.allocated ∧
    x.Holds (s.requests x.request).task s.mailbox
  /-- If two threads are before their last exchange, both take a zero. -/
  twoPrev : 2 ≤ s.stubs.length + (if s.service.hasPrev then 1 else 0) → s.mailbox.prev = 0

/-- The service thread goes to `pc'` and does not touch the mailbox. -/
structure Outside (s : TaskSys) (pc' : ServicePc) : Prop where
  /-- It has put no argument into the mailbox. -/
  hasPrev : s.service.hasPrev = false
  /-- Nor does it have afterwards. -/
  hasPrev' : pc'.hasPrev = false
  /-- It goes on only if there is no entry point in the mailbox. -/
  sawNoEip : pc'.sawNoEip = true → s.service.sawNoEip = true ∨ s.mailbox.eip = 0
  /-- It goes on only if there is no argument in the mailbox. -/
  sawNoPrev : pc'.sawNoPrev = true → s.service.sawNoPrev = true ∨ s.mailbox.prev = 0

theorem outside_of_moves {s : TaskSys} {pc : ServicePc} (h : s.Moves pc) : s.Outside pc := by
  cases h <;> constructor <;>
    simp_all [ServicePc.hasPrev, ServicePc.sawNoEip, ServicePc.sawNoPrev]

theorem hasEip_eq_false {pc : ServicePc} (h : pc.hasPrev = false) : pc.hasEip = false := by
  cases pc <;> first | rfl | cases h

theorem filled_of_hasPrev {pc : ServicePc} (h : pc.hasPrev = false) (tasks : ℕ → NTask)
    (m : NTask) : pc.Filled tasks m := by
  cases pc <;> trivial

theorem HandOverInv.of_same {s s' : TaskSys} {a : TaskAct} (h : HandOverInv s)
    (hst : Step s a s') (hmail : MailboxInv s') (hpend : PendingAll (fun task => task.eip ≠ 0) s')
    (hm : s'.mailbox = s.mailbox) (hl : s'.stubs = s.stubs)
    (hpc : s'.service = s.service ∨ s.Outside s'.service) : HandOverInv s' := by
  refine ⟨hmail, hpend, ?_, ?_, ?_, ?_, ?_, ?_⟩
  · rw [hl, hm]
    rcases hpc with hpc | hpc
    · rw [hpc]
      exact h.eips
    · rw [hasEip_eq_false hpc.hasPrev', ← hasEip_eq_false hpc.hasPrev]
      exact h.eips
  · intro hs
    rw [hm]
    rcases hpc with hpc | hpc
    · exact h.noEip (hpc ▸ hs)
    · exact (hpc.sawNoEip hs).elim h.noEip id
  · intro hs
    rw [hm]
    rcases hpc with hpc | hpc
    · exact h.noPrev (hpc ▸ hs)
    · exact (hpc.sawNoPrev hs).elim h.noPrev id
  · rcases hpc with hpc | hpc
    · rw [hpc, hm]
      refine h.filled.congr ?_
      intro p hp
      exact (task_of_step hst (h.pending p (.inr (.inl hp))).1).2
    · exact filled_of_hasPrev hpc.hasPrev' _ _
  · intro x hx
    rw [hl] at hx
    obtain ⟨hlt, hx⟩ := h.threads x hx
    obtain ⟨hlt', htask⟩ := task_of_step hst hlt
    exact ⟨hlt', by rwa [htask, hm]⟩
  · rw [hl, hm]
    rcases hpc with hpc | hpc
    · rw [hpc]
      exact h.twoPrev
    · rw [hpc.hasPrev', ← hpc.hasPrev]
      exact h.twoPrev

/-- The service thread goes on filling: there is no thread before its second exchange, and the
others take no more than the argument, which stays as it is. -/
theorem HandOverInv.threads_of_filling {s : TaskSys} (h : HandOverInv s) {m : NTask}
    (heip : s.mailbox.eip = 0) (hm : s.stubs ≠ [] → m.prev = s.mailbox.prev) :
    ∀ x ∈ s.stubs, x.request < s.allocated ∧ x.Holds (s.requests x.request).task m := by
  intro x hx
  obtain ⟨hlt, hx'⟩ := h.threads x hx
  have hnone : s.stubs.countP NewThread.beforeEip = 0 := by
    have := h.eips
    rw [if_pos heip] at this
    omega
  have hbefore : x.beforeEip = false :=
    Bool.eq_false_of_not_eq_true (List.countP_eq_zero.1 hnone x hx)
  exact ⟨hlt, hx'.of_prev hbefore (hm (List.ne_nil_of_mem hx))⟩

/-- A thread makes its first or second exchange: there is no other one before its second. -/
theorem HandOverInv.threads_of_set {s : TaskSys} (h : HandOverInv s) {k : ℕ} {x y : NewThread}
    {m : NTask} (hk : s.stubs[k]? = some x) (hx : x.beforeEip = true)
    (hy : y.request = x.request) (hyt : y.Holds (s.requests x.request).task m)
    (hm : m.prev = s.mailbox.prev) :
    ∀ z ∈ s.stubs.set k y, z.request < s.allocated ∧ z.Holds (s.requests z.request).task m := by
  have hl := Pick.perm hk
  have hl' := Pick.perm_set hk
  have hnone : (s.stubs.eraseIdx k).countP NewThread.beforeEip = 0 := by
    have := h.eips
    rw [hl.countP_eq, List.countP_cons_of_pos hx] at this
    split_ifs at this <;> omega
  intro z hz
  rcases List.mem_cons.1 ((hl' y).mem_iff.1 hz) with rfl | hz
  · rw [hy]
    exact ⟨(h.threads x (List.mem_of_getElem? hk)).1, hyt⟩
  · obtain ⟨hlt, hz'⟩ := h.threads z (List.mem_of_mem_eraseIdx hz)
    have hbefore : z.beforeEip = false :=
      Bool.eq_false_of_not_eq_true (List.countP_eq_zero.1 hnone z hz)
    exact ⟨hlt, hz'.of_prev hbefore hm⟩

/-- The service thread puts the argument into the mailbox: either no thread is before its last
exchange, or the argument is the zero that is there. -/
theorem HandOverInv.fillPrev {s s' : TaskSys} (h : HandOverInv s) {p : ℕ}
    (hpc : s.service = .fillPrev p) (hnew : s.stubs ≠ [] → (s.requests p).task.prev = 0)
    (hs' : s' = { s.touch [p] with
      mailbox := { s.mailbox with prev := (s.requests p).task.prev }, service := .fillEsp p })
    (hmail : MailboxInv s') (hpend : PendingAll (fun task => task.eip ≠ 0) s') :
    HandOverInv s' := by
  subst hs'
  have heip : s.mailbox.eip = 0 := h.noEip (by rw [hpc]; rfl)
  have hprev : s.mailbox.prev = 0 := h.noPrev (by rw [hpc]; rfl)
  refine ⟨hmail, hpend, ?_, fun _ => heip, nofun, rfl, ?_, ?_⟩
  · have := h.eips
    rwa [hpc] at this
  · exact h.threads_of_filling heip fun hne => (hnew hne).trans hprev.symm
  · intro htwo
    refine hnew ?_
    rintro hnil
    change 2 ≤ s.stubs.length + 1 at htwo
    rw [hnil] at htwo
    exact absurd htwo (by decide)

/-- It puts the entry point there, and so the three words are those of the request. -/
theorem HandOverInv.fillEip {s s' : TaskSys} (h : HandOverInv s) {p : ℕ}
    (hpc : s.service = .fillEip p)
    (hs' : s' = { s.touch [p] with
      mailbox := { s.mailbox with eip := (s.requests p).task.eip }, service := .create p })
    (hmail : MailboxInv s') (hpend : PendingAll (fun task => task.eip ≠ 0) s') :
    HandOverInv s' := by
  subst hs'
  have heip : s.mailbox.eip = 0 := h.noEip (by rw [hpc]; rfl)
  have hfilled : s.mailbox.prev = (s.requests p).task.prev ∧
      s.mailbox.esp = (s.requests p).task.esp := by
    have := h.filled
    rwa [hpc] at this
  have hnew : (s.requests p).task.eip ≠ 0 :=
    (h.pending p (.inr (.inl (by rw [hpc]; exact List.mem_cons_self)))).2
  refine ⟨hmail, hpend, ?_, nofun, nofun, ?_, ?_, ?_⟩
  · have hnone : s.stubs.countP NewThread.beforeEip + 0 = 0 := by
      have := h.eips
      rwa [hpc, if_pos heip] at this
    change s.stubs.countP NewThread.beforeEip + 1 =
      if (s.requests p).task.eip = 0 then 0 else 1
    rw [if_neg hnew]
    omega
  · change (⟨s.mailbox.esp, (s.requests p).task.eip, s.mailbox.prev⟩ : NTask) =
      (s.requests p).task
    rw [hfilled.1, hfilled.2]
  · exact h.threads_of_filling heip fun _ => rfl
  · have := h.twoPrev
    rwa [hpc] at this

/-- The new thread finds the words of its request in the mailbox. -/
theorem HandOverInv.create {s s' : TaskSys} (h : HandOverInv s) {p : ℕ} {tid : ULONG}
    (hpc : s.service = .create p)
    (hs' : s' = s.create p (some tid))
    (hmail : MailboxInv s') (hpend : PendingAll (fun task => task.eip ≠ 0) s') :
    HandOverInv s' := by
  subst hs'
  have hfilled : s.mailbox = (s.requests p).task := by
    have := h.filled
    rwa [hpc] at this
  have hlt : p < s.allocated :=
    (h.pending p (.inr (.inl (by rw [hpc]; exact List.mem_cons_self)))).1
  have hst : Step s (.create (some tid)) (s.create p (some tid)) := .create hpc
  have htask := fun q (hq : q < s.allocated) => (task_of_step hst hq).2
  refine ⟨hmail, hpend, ?_, nofun, nofun, trivial, ?_, ?_⟩
  · have : s.stubs.countP NewThread.beforeEip + 1 = if s.mailbox.eip = 0 then 0 else 1 := by
      have := h.eips
      rwa [hpc] at this
    exact (List.countP_append ..).trans this
  · intro x hx
    rcases List.mem_append.1 hx with hx | hx
    · obtain ⟨hlt, hx⟩ := h.threads x hx
      exact ⟨hlt, (htask _ hlt).symm ▸ hx⟩
    · obtain rfl := List.mem_singleton.1 hx
      exact ⟨hlt, (htask _ hlt).symm ▸ hfilled⟩
  · have : 2 ≤ s.stubs.length + 1 → s.mailbox.prev = 0 := by
      have := h.twoPrev
      rwa [hpc] at this
    intro htwo
    change 2 ≤ (s.stubs ++ [_]).length + 0 at htwo
    rw [List.length_append] at htwo
    exact this htwo

/-- A thread takes its stack. -/
theorem HandOverInv.stubEsp {s s' : TaskSys} (h : HandOverInv s) {k p : ℕ}
    (hk : s.stubs[k]? = some ⟨p, .start⟩) (hm : s.mailbox.esp ≠ 0)
    (hs' : s' = { s with
      mailbox := { s.mailbox with esp := 0 }
      stubs := s.stubs.set k ⟨p, .esp s.mailbox.esp⟩ })
    (hmail : MailboxInv s') (hpend : PendingAll (fun task => task.eip ≠ 0) s') :
    HandOverInv s' := by
  subst hs'
  have hone : s.mailbox = (s.requests p).task := (h.threads _ (List.mem_of_getElem? hk)).2
  have hl := Pick.perm hk
  have hl' := Pick.perm_set hk
  refine ⟨hmail, hpend, ?_, h.noEip, h.noPrev, ?_, ?_, ?_⟩
  · have := h.eips
    rw [hl.countP_eq, List.countP_cons_of_pos rfl] at this
    change (s.stubs.set k _).countP NewThread.beforeEip + (if s.service.hasEip then 1 else 0) = _
    rwa [(hl' _).countP_eq, List.countP_cons_of_pos rfl]
  · refine h.filled.of_esp ?_ rfl
    -- the thread is the only one before its first exchange
    have := h.mailbox.starts
    rw [hl.countP_eq, List.countP_cons_of_pos rfl, if_neg hm] at this
    by_contra he
    rw [if_pos (Bool.eq_true_of_not_eq_false he)] at this
    omega
  · exact h.threads_of_set hk rfl rfl hone rfl
  · have := h.twoPrev
    rwa [← List.length_set] at this

/-- A thread takes its entry point. -/
theorem HandOverInv.stubEip {s s' : TaskSys} (h : HandOverInv s) {k p : ℕ} {esp : ULONG}
    (hk : s.stubs[k]? = some ⟨p, .esp esp⟩)
    (hs' : s' = { s with
      mailbox := { s.mailbox with eip := 0 }
      stubs := s.stubs.set k ⟨p, .eip esp s.mailbox.eip⟩ })
    (hmail : MailboxInv s') (hpend : PendingAll (fun task => task.eip ≠ 0) s') :
    HandOverInv s' := by
  subst hs'
  have hone : (⟨esp, s.mailbox.eip, s.mailbox.prev⟩ : NTask) = (s.requests p).task :=
    (h.threads _ (List.mem_of_getElem? hk)).2
  have hl := Pick.perm hk
  have hl' := Pick.perm_set hk
  have hsum : (s.stubs.eraseIdx k).countP NewThread.beforeEip + 1 +
      (if s.service.hasEip then 1 else 0) = if s.mailbox.eip = 0 then 0 else 1 := by
    have := h.eips
    rwa [hl.countP_eq, List.countP_cons_of_pos rfl] at this
  have hno : s.service.hasEip = false := by
    by_contra he
    rw [if_pos (Bool.eq_true_of_not_eq_false he)] at hsum
    split_ifs at hsum
    omega
  refine ⟨hmail, hpend, ?_, fun _ => rfl, h.noPrev, h.filled.of_eip hno rfl rfl, ?_, ?_⟩
  · change (s.stubs.set k _).countP NewThread.beforeEip +
      (if s.service.hasEip = true then 1 else 0) = 0
    rw [hno] at hsum ⊢
    rw [(hl' _).countP_eq, List.countP_cons_of_neg Bool.false_ne_true]
    split_ifs at hsum ⊢ <;> omega
  · exact h.threads_of_set hk rfl rfl hone rfl
  · have := h.twoPrev
    rwa [← List.length_set] at this

/-- A thread takes its argument, and no other thread misses it. -/
theorem HandOverInv.stubPrev {s s' : TaskSys} (h : HandOverInv s) {k p : ℕ} {esp eip : ULONG}
    (hk : s.stubs[k]? = some ⟨p, .eip esp eip⟩)
    (hs' : s' = { s with
      mailbox := { s.mailbox with prev := 0 }, stubs := s.stubs.eraseIdx k })
    (hmail : MailboxInv s') (hpend : PendingAll (fun task => task.eip ≠ 0) s') :
    HandOverInv s' := by
  subst hs'
  have hl := Pick.perm hk
  have hlen : s.stubs.length = (s.stubs.eraseIdx k).length + 1 := hl.length_eq
  -- if there is another thread, there is nothing to take
  have hzero : s.stubs.eraseIdx k ≠ [] ∨ s.service.hasPrev = true →
      ({ s.mailbox with prev := 0 } : NTask) = s.mailbox := by
    intro hother
    have htwo : 2 ≤ s.stubs.length + (if s.service.hasPrev then 1 else 0) := by
      rcases hother with hne | hp
      · have := List.length_pos_of_ne_nil hne
        omega
      · rw [if_pos hp]
        omega
    rw [← h.twoPrev htwo]
  refine ⟨hmail, hpend, ?_, h.noEip, fun _ => rfl, ?_, ?_, fun _ => rfl⟩
  · have := h.eips
    rwa [hl.countP_eq, List.countP_cons_of_neg Bool.false_ne_true] at this
  · change s.service.Filled _ { s.mailbox with prev := 0 }
    by_cases hp : s.service.hasPrev = true
    · rw [hzero (.inr hp)]
      exact h.filled
    · exact filled_of_hasPrev (Bool.eq_false_of_not_eq_true hp) _ _
  · intro x hx
    change x.request < s.allocated ∧
      x.Holds (s.requests x.request).task { s.mailbox with prev := 0 }
    rw [hzero (.inl (List.ne_nil_of_mem hx))]
    exact h.threads x (List.mem_of_mem_eraseIdx hx)

theorem handOverInv_step {s s' : TaskSys} {a : TaskAct} (h : HandOverInv s) (hg : HandsOver s a)
    (hst : Step s a s') : HandOverInv s' := by
  have hmail : MailboxInv s' := mailboxInv_step h.mailbox hg.starts hst
  have hpend : PendingAll (fun task => task.eip ≠ 0) s' := by
    refine pendingAll_step h.pending hst ?_
    rintro i task flags b junk rfl
    exact hg.2
  have hsame := h.of_same hst hmail hpend
  cases hst with
  | move hm => exact hsame rfl rfl (.inr (outside_of_moves hm))
  | reset hpc => exact hsame rfl rfl (.inr ⟨by rw [hpc]; rfl, rfl, nofun, nofun⟩)
  | pop hpc =>
    refine hsame rfl rfl (.inr ⟨by rw [hpc]; rfl, rfl, ?_, ?_⟩)
    · exact fun _ => .inl (by rw [hpc]; rfl)
    · exact fun _ => .inl (by rw [hpc]; rfl)
  | testWait hpc => exact hsame rfl rfl (.inr ⟨by rw [hpc]; rfl, rfl, nofun, nofun⟩)
  | testNoWait hpc => exact hsame rfl rfl (.inr ⟨by rw [hpc]; rfl, rfl, nofun, nofun⟩)
  | free hpc => exact hsame rfl rfl (.inr ⟨by rw [hpc]; rfl, rfl, nofun, nofun⟩)
  | setStarted hpc => exact hsame rfl rfl (.inr ⟨by rw [hpc]; rfl, rfl, nofun, nofun⟩)
  | createFails => exact hg.elim
  | @fillPrev p hpc => exact h.fillPrev hpc (hg p hpc) rfl hmail hpend
  | @fillEsp p hpc =>
    have heip : s.mailbox.eip = 0 := h.noEip (by rw [hpc]; rfl)
    have hfilled : s.mailbox.prev = (s.requests p).task.prev := by
      have := h.filled
      rwa [hpc] at this
    refine ⟨hmail, hpend, ?_, fun _ => heip, nofun, ⟨hfilled, rfl⟩, ?_, ?_⟩
    · have := h.eips
      rwa [hpc] at this
    · exact h.threads_of_filling heip fun _ => rfl
    · have := h.twoPrev
      rwa [hpc] at this
  | fillEip hpc => exact h.fillEip hpc rfl hmail hpend
  | create hpc => exact h.create hpc rfl hmail hpend
  | stubFails hk hm => exact absurd hm (h.mailbox.esp_ne_zero hk)
  | stubEsp hk hm => exact h.stubEsp hk hm rfl hmail hpend
  | stubEip hk => exact h.stubEip hk rfl hmail hpend
  | stubPrev hk => exact h.stubPrev hk rfl hmail hpend
  | _ => exact hsame rfl rfl (.inl rfl)

theorem handOverInv_init : HandOverInv machine.init := by
  refine ⟨mailboxInv_init, ?_, rfl, nofun, nofun, trivial, nofun, nofun⟩
  rintro p (h | h | ⟨i, flags, h⟩) <;> cases h

/-! ### Every thread serves its request -/

/-- What a thread calls its entry point with is what its request holds. -/
theorem known_calledBy {s : TaskSys} (h : HandOverInv s) (a : TaskAct) :
    Known (s.calledBy a) s := by
  intro c hc
  cases a with
  | stub k =>
    simp only [calledBy] at hc
    split at hc
    · rename_i hk
      obtain rfl := List.mem_singleton.1 hc
      obtain ⟨hlt, hx⟩ := h.threads _ (List.mem_of_getElem? hk)
      exact ⟨hlt, hx.symm⟩
    · cases hc
  | _ => cases hc

/-- One step: a thread is created, stays in its stub, or calls its entry point. -/
theorem stubs_step {s s' : TaskSys} {a : TaskAct} (h : HandOverInv s) (hg : HandsOver s a)
    (hst : Step s a s') :
    (s.stubs.map NewThread.request ++ s.createdBy a).Perm
      ((s.calledBy a).map Prod.fst ++ s'.stubs.map NewThread.request) := by
  have hset : ∀ {k : ℕ} {x y : NewThread}, s.stubs[k]? = some x → y.request = x.request →
      (s.stubs.map NewThread.request).Perm ((s.stubs.set k y).map NewThread.request) := by
    intro k x y hk hy
    have hl := Pick.perm hk
    have hl' := Pick.perm_set hk
    have hx := hl.map NewThread.request
    have hy' := (hl' y).map NewThread.request
    rw [List.map_cons] at hx
    rw [List.map_cons, hy] at hy'
    exact hx.trans hy'.symm
  cases hst with
  | createFails => exact hg.elim
  | @create p tid hpc =>
    simp only [createdBy, hpc]
    change List.Perm _ ((s.stubs ++ [(⟨p, .start⟩ : NewThread)]).map NewThread.request)
    rw [List.map_append]
    exact .refl _
  | stubFails hk hm => exact absurd hm (h.mailbox.esp_ne_zero hk)
  | stubEsp hk => simpa [createdBy, calledBy, hk] using hset hk rfl
  | stubEip hk => simpa [createdBy, calledBy, hk] using hset hk rfl
  | stubPrev hk =>
    simp only [createdBy, calledBy, hk, List.append_nil]
    exact (Pick.perm hk).map NewThread.request
  | _ => exact .of_eq (List.append_nil _)

/-! ### All requests can be served -/

/-- The step is one of the service thread or of a new thread. -/
def ownStep : TaskAct → Bool
  | .service | .stub _ => true
  | .create tid => tid.isSome
  | _ => false

/-- How far the service thread is from taking a request; a new request comes after that. -/
def pcRank : ServicePc → ℕ
  | .fillPrev _ => 18
  | .fillEsp _ => 17
  | .fillEip _ => 16
  | .create _ => 15
  | .testFlags _ => 11
  | .free _ => 10
  | .setStarted _ => 10
  | .idle => 9
  | .testWakes => 8
  | .reset => 7
  | .softirq => 6
  | .inSoftirq => 5
  | .testEip => 4
  | .testEsp => 3
  | .testPrev => 2
  | .testList => 1
  | .lock => 0

/-- What is left to do. -/
def work (s : TaskSys) : ℕ :=
  19 * s.toStart.length + pcRank s.service + (s.stubs.map NewThread.rank).sum

/-- Nothing is left to do: no request waits, and no thread is in its stub. -/
def Served (s : TaskSys) : Prop := s.waiting = [] ∧ s.stubs = []

theorem filling_of_beingCreated {pc : ServicePc} (h : pc.filling = false) :
    pc.beingCreated = [] := by
  cases pc <;> first | rfl | cases h

/-- The service thread goes on to a place with less to do. -/
theorem work_goto_lt {s : TaskSys} {pc : ServicePc} (h : pcRank pc < pcRank s.service) :
    (s.goto pc).work < s.work := by
  unfold work goto
  dsimp only
  omega

/-- If there is no new thread and a request waits, the service thread comes closer to it. -/
theorem service_progress {s : TaskSys} (h : HandOverInv s) (hl : s.stubs = [])
    (hw : s.waiting ≠ []) :
    ∃ a s', ownStep a = true ∧ HandsOver s a ∧ machine.step s a = some s' ∧ s'.work < s.work := by
  have hlist : s.service.filling = false → s.toStart ≠ [] ∧ s.mailbox = .empty := by
    intro hf
    refine ⟨fun hnil => hw ?_, mailbox_eq_empty h.mailbox hf hl⟩
    rw [waiting, filling_of_beingCreated hf, hnil]
    rfl
  have hgo : ∀ s', s.serviceStep = some s' → s'.work < s.work →
      ∃ a s', ownStep a = true ∧ HandsOver s a ∧ machine.step s a = some s' ∧
        s'.work < s.work := by
    intro s' hst hlt
    exact ⟨.service, s', rfl, fun _ _ hne => absurd hl hne, hst, hlt⟩
  have hmove : ∀ pc, s.serviceStep = some (s.goto pc) → pcRank pc < pcRank s.service →
      ∃ a s', ownStep a = true ∧ HandsOver s a ∧ machine.step s a = some s' ∧
        s'.work < s.work :=
    fun pc hst hlt => hgo (s.goto pc) hst (work_goto_lt hlt)
  cases hpc : s.service with
  | idle => exact hmove .testWakes (by simp only [serviceStep, hpc]) (by rw [hpc]; decide)
  | testWakes =>
    refine hmove _ (by simp only [serviceStep, hpc]; rfl) ?_
    rw [hpc]
    split_ifs <;> decide
  | reset =>
    refine hgo { s with wakes := 0, service := .softirq } (by simp only [serviceStep, hpc]) ?_
    simp [work, pcRank, hpc]
  | softirq => exact hmove .inSoftirq (by simp only [serviceStep, hpc]) (by rw [hpc]; decide)
  | inSoftirq => exact hmove .testEip (by simp only [serviceStep, hpc]) (by rw [hpc]; decide)
  | testEip =>
    obtain ⟨-, hm⟩ := hlist (by rw [hpc]; rfl)
    exact hmove .testEsp (by simp [serviceStep, hpc, hm, NTask.empty]) (by rw [hpc]; decide)
  | testEsp =>
    obtain ⟨-, hm⟩ := hlist (by rw [hpc]; rfl)
    exact hmove .testPrev (by simp [serviceStep, hpc, hm, NTask.empty]) (by rw [hpc]; decide)
  | testPrev =>
    obtain ⟨-, hm⟩ := hlist (by rw [hpc]; rfl)
    exact hmove .testList (by simp [serviceStep, hpc, hm, NTask.empty]) (by rw [hpc]; decide)
  | testList =>
    obtain ⟨hne, -⟩ := hlist (by rw [hpc]; rfl)
    exact hmove .lock (by simp [serviceStep, hpc, hne]) (by rw [hpc]; decide)
  | lock =>
    obtain ⟨hne, -⟩ := hlist (by rw [hpc]; rfl)
    obtain ⟨p, rest, hcons⟩ := List.exists_cons_of_ne_nil hne
    refine hgo _ (by simp only [serviceStep, hpc, hcons]; rfl) ?_
    simp [work, touch, pcRank, hpc, hcons]
    omega
  | fillPrev p =>
    refine hgo _ (by simp only [serviceStep, hpc]; rfl) ?_
    simp [work, touch, pcRank, hpc]
  | fillEsp p =>
    refine hgo _ (by simp only [serviceStep, hpc]; rfl) ?_
    simp [work, touch, pcRank, hpc]
  | fillEip p =>
    refine hgo _ (by simp only [serviceStep, hpc]; rfl) ?_
    simp [work, touch, pcRank, hpc]
  | create p =>
    refine ⟨.create (some 0), s.create p (some 0), rfl, trivial, by simp [machine, step, hpc], ?_⟩
    simp [work, create, goto, setRequest, touch, pcRank, hpc, hl, NewThread.rank]
  | testFlags p =>
    refine hgo _ (by simp only [serviceStep, hpc]; rfl) ?_
    split_ifs <;> simp [work, goto, touch, pcRank, hpc]
  | free p =>
    refine hgo ((s.kfree p).goto .idle) (by simp only [serviceStep, hpc]) ?_
    simp [work, kfree, goto, setRequest, touch, pcRank, hpc]
  | setStarted p =>
    refine hgo _ (by simp only [serviceStep, hpc]; rfl) ?_
    simp [work, goto, setRequest, touch, pcRank, hpc]

/-- From every state the service thread and the new threads serve all requests by their own
steps. -/
theorem exists_served {s : TaskSys} (h : HandOverInv s) :
    ∃ as s', machine.Run HandsOver s as s' ∧ (∀ a ∈ as, ownStep a = true) ∧ s'.Served := by
  induction hn : s.work using Nat.strong_induction_on generalizing s with
  | _ n ih =>
    -- one step leads on, the induction hypothesis to the end
    have hgo : (∃ a s₁, ownStep a = true ∧ HandsOver s a ∧ machine.step s a = some s₁ ∧
        s₁.work < s.work) →
        ∃ as s', machine.Run HandsOver s as s' ∧ (∀ a ∈ as, ownStep a = true) ∧ s'.Served := by
      rintro ⟨a, s₁, ha, hg, hst, hlt⟩
      obtain ⟨as, s', hrun, has, hs'⟩ :=
        ih _ (hn ▸ hlt) (handOverInv_step h hg (step_cases hst)) rfl
      exact ⟨a :: as, s', .cons hg hst hrun, List.forall_mem_cons.2 ⟨ha, has⟩, hs'⟩
    by_cases hl : s.stubs = []
    · by_cases hw : s.waiting = []
      · exact ⟨[], s, .nil s, nofun, hw, hl⟩
      · exact hgo (service_progress h hl hw)
    · obtain ⟨x, rest, hcons⟩ := List.exists_cons_of_ne_nil hl
      obtain ⟨s₁, hst, hsv, hlist, hlt⟩ := rank_stub hcons
      refine hgo ⟨.stub 0, s₁, rfl, trivial, hst, ?_⟩
      rw [work, work, hsv, hlist]
      omega

section Runs

variable {as : List TaskAct} {s : TaskSys}

theorem handOverInv_run (h : machine.Run HandsOver machine.init as s) : HandOverInv s :=
  h.invariant (fun _ _ _ hI hg hst => handOverInv_step hI hg (step_cases hst)) handOverInv_init

theorem queueInv_run (h : machine.Run HandsOver machine.init as s) :
    QueueInv (machine.collect queuedBy machine.init as) s := by
  have := h.history (fun _ _ _ _ hI _ hst => queueInv_step hI (step_cases hst)) queueInv_init
  rwa [List.nil_append] at this

/-- The threads are created in the order of the queue. -/
theorem created_append_waiting (h : machine.Run HandsOver machine.init as s) :
    machine.collect createdBy machine.init as ++ s.waiting =
      (machine.collect queuedBy machine.init as).map Prod.fst := by
  have hcons := h.conserve (I := fun _ => True)
    (fun _ _ _ _ hg hst => ⟨trivial, waiting_step hg.starts (step_cases hst)⟩) trivial
  rw [Machine.collect_map] at hcons
  exact hcons.symm

/-- Every created thread is in its stub or has called its entry point, once. -/
theorem called_append_stubs (h : machine.Run HandsOver machine.init as s) :
    ((machine.collect calledBy machine.init as).map Prod.fst ++
      s.stubs.map NewThread.request).Perm (machine.collect createdBy machine.init as) := by
  have hcons := h.conserve_perm
    (fun _ _ _ hI hg hst => ⟨handOverInv_step hI hg (step_cases hst),
      stubs_step hI hg (step_cases hst)⟩) handOverInv_init
  rw [Machine.collect_map] at hcons
  exact hcons.symm

/-- Every thread calls its entry point with the words of a queued request. -/
theorem called_subset_queued (h : machine.Run HandsOver machine.init as s) :
    machine.collect calledBy machine.init as ⊆ machine.collect queuedBy machine.init as := by
  have hknown : Known (machine.collect calledBy machine.init as) s := by
    have hstep : ∀ l t a t', (HandOverInv t ∧ Known l t) → HandsOver t a →
        machine.step t a = some t' → HandOverInv t' ∧ Known (l ++ t.calledBy a) t' := by
      rintro l t a t' ⟨hI, hl⟩ hg hst
      refine ⟨handOverInv_step hI hg (step_cases hst), known_step ?_ (step_cases hst)⟩
      intro c hc
      exact (List.mem_append.1 hc).elim (hl c) (known_calledBy hI a c)
    have := (h.history hstep (l := []) ⟨handOverInv_init, nofun⟩).2
    rwa [List.nil_append] at this
  intro c hc
  -- the request of the thread has been queued, with the same words
  have hmem : c.1 ∈ (machine.collect queuedBy machine.init as).map Prod.fst := by
    rw [← created_append_waiting h]
    refine List.mem_append_left _ ((called_append_stubs h).mem_iff.1 ?_)
    exact List.mem_append_left _ (List.mem_map_of_mem hc)
  obtain ⟨d, hd, hdc⟩ := List.mem_map.1 hmem
  have htask : d.2 = c.2 := by
    rw [← ((queueInv_run h).queued d hd).2, hdc, (hknown c hc).2]
  rwa [← Prod.ext hdc htask]

/-- If all requests have been served, every queued request has been called, once. -/
theorem called_perm_queued (h : machine.Run HandsOver machine.init as s) (hs : s.Served) :
    (machine.collect calledBy machine.init as).Perm (machine.collect queuedBy machine.init as) := by
  have hperm : ((machine.collect calledBy machine.init as).map Prod.fst).Perm
      ((machine.collect queuedBy machine.init as).map Prod.fst) := by
    have hcreated := created_append_waiting h
    have hcalled := called_append_stubs h
    rw [hs.1, List.append_nil] at hcreated
    rwa [hs.2, List.map_nil, List.append_nil, hcreated] at hcalled
  have hnodup : (machine.collect calledBy machine.init as).Nodup :=
    .of_map Prod.fst (hperm.nodup_iff.2 (queueInv_run h).nodup)
  refine (hnodup.subperm (called_subset_queued h)).perm_of_length_le ?_
  simpa only [List.length_map] using hperm.length_eq.ge

/-- **Threads get their own requests.**  Threads are created in the order in which their requests
were queued, each request is queued once and called at most once, a thread calls its entry point
with the three words of one request, and the service thread and the threads can always go on by
their own steps until every queued request has been called. -/
theorem handed_over (h : machine.Run HandsOver machine.init as s) :
    machine.collect createdBy machine.init as <+:
      (machine.collect queuedBy machine.init as).map Prod.fst ∧
    ((machine.collect queuedBy machine.init as).map Prod.fst).Nodup ∧
    ((machine.collect calledBy machine.init as).map Prod.fst).Nodup ∧
    machine.collect calledBy machine.init as ⊆ machine.collect queuedBy machine.init as ∧
    ∃ bs s', machine.Run HandsOver s bs s' ∧ (∀ a ∈ bs, ownStep a = true) ∧
      (machine.collect calledBy machine.init (as ++ bs)).Perm
        (machine.collect queuedBy machine.init as) := by
  have hcreated := created_append_waiting h
  have hqueued := (queueInv_run h).nodup
  refine ⟨⟨s.waiting, hcreated⟩, hqueued, ?_, called_subset_queued h, ?_⟩
  · have hnodup : (machine.collect createdBy machine.init as).Nodup :=
      (hcreated ▸ hqueued).of_append_left
    exact ((called_append_stubs h).nodup_iff.2 hnodup).of_append_left
  · obtain ⟨bs, s', hrun, hown, hs⟩ := exists_served (handOverInv_run h)
    refine ⟨bs, s', hrun, hown, ?_⟩
    have hnone : machine.collect queuedBy s bs = [] := by
      refine Machine.collect_eq_nil ?_ s
      intro a ha t
      have := hown a ha
      cases a with
      | enqueue => cases this
      | _ => rfl
    have := called_perm_queued (h.append hrun) hs
    rwa [Machine.collect_append queuedBy bs h.exec_eq, hnone, List.append_nil] at this

end Runs

/-- An argument that comes while a thread is before its last exchange goes to that thread, if it
moves before the new one. -/
theorem mixed_of_not_handsOver {s s' : TaskSys} (h : HandOverInv s)
    (hst : machine.step s .service = some s') (hg : ¬ HandsOver s .service) :
    ∃ k, ∃ c ∈ s'.calledBy (.stub k), c.2.prev ≠ (s'.requests c.1).task.prev := by
  simp only [HandsOver, not_forall] at hg
  obtain ⟨p, hpc, hne, hnew⟩ := hg
  obtain ⟨x, rest, hl⟩ := List.exists_cons_of_ne_nil hne
  have hx : x ∈ s.stubs := hl ▸ List.mem_cons_self
  -- the thread has taken its entry point, and no argument was there for it
  have heip : s.mailbox.eip = 0 := h.noEip (by rw [hpc]; rfl)
  have hprev : s.mailbox.prev = 0 := h.noPrev (by rw [hpc]; rfl)
  have hbefore : x.beforeEip = false := by
    have := h.eips
    rw [if_pos heip] at this
    exact Bool.eq_false_of_not_eq_true (List.countP_eq_zero.1 (by omega) x hx)
  have hholds := (h.threads x hx).2
  obtain ⟨q, x⟩ := x
  cases x with
  | start => cases hbefore
  | esp => cases hbefore
  | eip esp eip =>
    have hs' : s' = { s.touch [p] with
        mailbox := { s.mailbox with prev := (s.requests p).task.prev }, service := .fillEsp p } :=
      Option.some.inj (hst.symm.trans (by simp only [machine, step, serviceStep, hpc]))
    subst hs'
    refine ⟨0, (q, ⟨esp, eip, (s.requests p).task.prev⟩), ?_, ?_⟩
    · simp [calledBy, touch, hl]
    · have hwords : (⟨esp, eip, s.mailbox.prev⟩ : NTask) = (s.requests q).task := hholds
      have : s.mailbox.prev = (s.requests q).task.prev := by rw [← hwords]
      change (s.requests p).task.prev ≠ (s.requests q).task.prev
      rwa [← this, hprev]

/-! ### Runs -/

/-- The argument of the first request is zero.  Its thread takes stack and entry point and stays in
`LX_add_this_current`, while the service thread begins with the second request. -/
def slowStub : List TaskAct :=
  queue 0 ⟨1, 2, 0⟩ 0 ++ queue 1 ⟨4, 5, 6⟩ 0 ++ toCreate ++ [.create (some 7), .stub 0, .stub 0] ++
    List.replicate 10 .service ++ [.stub 0]

/-- The first thread calls its entry point with the argument of the second request. -/
theorem not_handed_over_slowStub :
    (machine.exec machine.init slowStub).isSome ∧
    machine.collect queuedBy machine.init slowStub = [(0, ⟨1, 2, 0⟩), (1, ⟨4, 5, 6⟩)] ∧
    machine.collect calledBy machine.init slowStub = [(0, ⟨1, 2, 6⟩)] ∧
    ¬ machine.collect calledBy machine.init slowStub ⊆
      machine.collect queuedBy machine.init slowStub := by
  have hq : machine.collect queuedBy machine.init slowStub = [(0, ⟨1, 2, 0⟩), (1, ⟨4, 5, 6⟩)] := rfl
  have hc : machine.collect calledBy machine.init slowStub = [(0, ⟨1, 2, 6⟩)] := rfl
  refine ⟨rfl, hq, hc, ?_⟩
  rw [hq, hc]
  decide

/-- The same with two requests whose argument is zero.  The second thread overtakes the first. -/
def overtaken : List TaskAct :=
  queue 0 ⟨1, 2, 0⟩ 0 ++ queue 1 ⟨4, 5, 0⟩ 0 ++ toCreate ++ [.create (some 7), .stub 0, .stub 0] ++
    List.replicate 12 .service ++ [.create (some 8), .stub 1, .stub 1, .stub 1, .stub 0]

def handsOverTest (s : TaskSys) : TaskAct → Bool
  | .create tid => tid.isSome
  | .call _ task _ _ _ _ => task.esp != 0 && task.eip != 0
  | .service =>
    match s.service with
    | .fillPrev p => s.stubs.isEmpty || (s.requests p).task.prev == 0
    | _ => true
  | _ => true

theorem handsOver_of_test (s : TaskSys) (a : TaskAct) (h : handsOverTest s a = true) :
    s.HandsOver a := by
  cases a with
  | create tid =>
    cases tid with
    | none => cases h
    | some tid => trivial
  | call =>
    obtain ⟨hesp, heip⟩ := (Bool.and_eq_true _ _).mp h
    exact ⟨bne_iff_ne.1 hesp, bne_iff_ne.1 heip⟩
  | service =>
    intro p hpc hne
    have htest : (s.stubs.isEmpty || (s.requests p).task.prev == 0) = true := by
      change (match s.service with
        | .fillPrev p => s.stubs.isEmpty || (s.requests p).task.prev == 0
        | _ => true) = true at h
      rwa [hpc] at h
    rcases (Bool.or_eq_true _ _).mp htest with hempty | hprev
    · exact absurd (List.isEmpty_iff.1 hempty) hne
    · exact beq_iff_eq.1 hprev
  | _ => trivial

/-- `handed_over` on this run: both threads have their own words. -/
theorem handed_over_overtaken :
    machine.collect calledBy machine.init overtaken = [(1, ⟨4, 5, 0⟩), (0, ⟨1, 2, 0⟩)] ∧
    machine.collect createdBy machine.init overtaken <+:
      (machine.collect queuedBy machine.init overtaken).map Prod.fst ∧
    machine.collect calledBy machine.init overtaken ⊆
      machine.collect queuedBy machine.init overtaken := by
  obtain ⟨s, hs⟩ := Option.isSome_iff_exists.1
    (rfl : (machine.exec machine.init overtaken).isSome = true)
  have h := handed_over (Machine.run_of_check handsOver_of_test hs rfl)
  exact ⟨rfl, h.1, h.2.2.2.1⟩

end TaskSys

end LxApi32
