import LxApi32.Lib.Pick
import LxApi32.Task.Service

/-!
# The mailbox of the service thread

The service thread fills `lx_started_task` before it creates the thread that is to empty it, and
takes no further request while one of the three words is non-zero.  It does not look at the result
of `LXA_CreateThread`, so a failed creation leaves the mailbox full for ever
(`TaskSys.stuck_run`, `TaskSys.stuck_of_createFails`).  A thread that is created for a request
without a stack ends before it has taken the entry point, which comes to the same.

* `TaskSys.not_stuck` : otherwise there is always a thread that will still empty the mailbox.
-/

namespace LxApi32

/-- The mailbox is being filled, or the thread that is to empty it is being created. -/
def ServicePc.filling : ServicePc → Bool
  | .fillPrev _ | .fillEsp _ | .fillEip _ | .create _ => true
  | _ => false

/-- The service thread has put a stack into the mailbox and not yet created the thread. -/
def ServicePc.hasEsp : ServicePc → Bool
  | .fillEip _ | .create _ => true
  | _ => false

/-- The service thread has found no stack in the mailbox and not yet put one into it. -/
def ServicePc.sawNoEsp : ServicePc → Bool
  | .testPrev | .testList | .lock | .fillPrev _ | .fillEsp _ => true
  | _ => false

/-- The thread has not yet taken its stack. -/
def NewThread.beforeEsp (x : NewThread) : Bool :=
  match x.stub with
  | .start => true
  | _ => false

/-- The thread has not yet taken its entry point. -/
def NewThread.beforeEip (x : NewThread) : Bool :=
  match x.stub with
  | .eip _ _ => false
  | _ => true

/-- The exchanges that the thread has still to make. -/
def NewThread.rank (x : NewThread) : ℕ :=
  match x.stub with
  | .start => 3
  | .esp _ => 2
  | .eip _ _ => 1

/-- No word is taken. -/
def NTask.empty : NTask := ⟨0, 0, 0⟩

namespace TaskSys

/-- The threads in their stubs empty the mailbox by their own next steps. -/
def WillEmpty (s : TaskSys) : Prop :=
  ∃ (ks : List ℕ) (s' : TaskSys), machine.exec s (ks.map .stub) = some s' ∧ s'.mailbox = .empty

/-- A request waits, the mailbox is occupied, and no thread exists or is about to be created that
will empty it. -/
def Stuck (s : TaskSys) : Prop :=
  s.toStart ≠ [] ∧ s.mailbox ≠ .empty ∧ s.service.filling = false ∧ ¬ s.WillEmpty

/-- No thread creation fails, and no thread is asked for without a stack. -/
def Starts (_ : TaskSys) : TaskAct → Prop
  | .create none => False
  | .call _ task _ _ _ _ => task.esp ≠ 0
  | _ => True

/-! ### Requests on their way -/

/-- The request `p` has been filled and the service thread has not yet done with it. -/
def Pending (s : TaskSys) (p : ℕ) : Prop :=
  p ∈ s.toStart ∨ p ∈ s.service.inHand ∨ ∃ i flags, s.callers i = .filled p flags

/-- Every request on its way has been allocated, and its task satisfies `Q`. -/
def PendingAll (Q : NTask → Prop) (s : TaskSys) : Prop :=
  ∀ p, s.Pending p → p < s.allocated ∧ Q (s.requests p).task

@[simp]
theorem callers_setCaller_self (s : TaskSys) (i : ℕ) (c : Caller) :
    (s.setCaller i c).callers i = c := Function.update_self ..

theorem callers_setCaller_ne (s : TaskSys) {i j : ℕ} (c : Caller) (h : j ≠ i) :
    (s.setCaller i c).callers j = s.callers j := Function.update_of_ne h ..

@[simp]
theorem requests_setRequest_self (s : TaskSys) (p : ℕ) (r : NewTask) :
    (s.setRequest p r).requests p = r := Function.update_self ..

theorem requests_setRequest_ne (s : TaskSys) {p q : ℕ} (r : NewTask) (h : q ≠ p) :
    (s.setRequest p r).requests q = s.requests q := Function.update_of_ne h ..

/-- A caller that moves elsewhere than to a filled request adds none. -/
theorem filled_of_update {f : ℕ → Caller} {i j p : ℕ} {c : Caller} {flags : ULONG}
    (h : Function.update f i c j = .filled p flags) (hc : ∀ p flags, c ≠ .filled p flags) :
    f j = .filled p flags ∧ j ≠ i := by
  by_cases hji : j = i
  · rw [hji, Function.update_self] at h
    exact absurd h (hc _ _)
  · rw [Function.update_of_ne hji] at h
    exact ⟨h, hji⟩

theorem Pending.of_setCaller {s s' : TaskSys} {i p : ℕ} {c : Caller} (h : s'.Pending p)
    (hl : s'.toStart = s.toStart) (hs : s'.service = s.service)
    (hcs : s'.callers = Function.update s.callers i c) (hc : ∀ p flags, c ≠ .filled p flags) :
    s.Pending p := by
  rcases h with h | h | ⟨j, flags, hj⟩
  · exact .inl (hl ▸ h)
  · exact .inr (.inl (hs ▸ h))
  · rw [hcs] at hj
    exact .inr (.inr ⟨j, flags, (filled_of_update hj hc).1⟩)

theorem inHand_of_moves {s : TaskSys} {pc : ServicePc} (h : s.Moves pc) : pc.inHand = [] := by
  cases h <;> rfl

/-- A request on its way was so before, or has just been allocated. -/
theorem pending_of_step {s s' : TaskSys} {a : TaskAct} {p : ℕ} (hst : Step s a s')
    (h : s'.Pending p) : s.Pending p ∨ p = s.allocated ∧
      ∃ i task flags inInterrupt junk, a = .call i task flags inInterrupt junk true ∧
        (s'.requests p).task = task ∧ s'.allocated = s.allocated + 1 := by
  cases hst with
  | move hm =>
    rcases h with h | h | h
    · exact .inl (.inl h)
    · rw [show (s.goto _).service.inHand = [] from inHand_of_moves hm] at h
      cases h
    · exact .inl (.inr (.inr h))
  | reset =>
    rcases h with h | h | h
    · exact .inl (.inl h)
    · cases h
    · exact .inl (.inr (.inr h))
  | pop hpc hl =>
    rcases h with h | h | h
    · exact .inl (.inl (hl ▸ List.mem_cons_of_mem _ h))
    · exact .inl (.inl (hl ▸ List.mem_singleton.1 h ▸ List.mem_cons_self))
    · exact .inl (.inr (.inr h))
  | fillPrev hpc => exact .inl (h.imp_right (.imp_left fun h => by rwa [hpc]))
  | fillEsp hpc => exact .inl (h.imp_right (.imp_left fun h => by rwa [hpc]))
  | fillEip hpc => exact .inl (h.imp_right (.imp_left fun h => by rwa [hpc]))
  | createFails hpc => exact .inl (h.imp_right (.imp_left fun h => by rwa [hpc]))
  | create hpc => exact .inl (h.imp_right (.imp_left fun h => by rwa [hpc]))
  | testWait hpc => exact .inl (h.imp_right (.imp_left fun h => by rwa [hpc]))
  | testNoWait hpc => exact .inl (h.imp_right (.imp_left fun h => by rwa [hpc]))
  | free hpc => exact .inl (h.imp_right (.imp_left nofun))
  | setStarted hpc => exact .inl (h.imp_right (.imp_left nofun))
  | callNoMemory => exact .inl (h.of_setCaller rfl rfl rfl (by simp))
  | @call i task flags inInterrupt junk rc hc =>
    rcases h with h | h | ⟨j, flags', hj⟩
    · exact .inl (.inl h)
    · exact .inl (.inr (.inl h))
    · by_cases hji : j = i
      · subst hji
        have hp := (Caller.filled.inj ((Function.update_self ..).symm.trans hj)).1
        subst hp
        exact .inr ⟨rfl, _, _, _, _, _, rfl,
          congrArg NewTask.task (Function.update_self (f := s.requests) ..), rfl⟩
      · exact .inl (.inr (.inr ⟨j, flags', (Function.update_of_ne hji ..).symm.trans hj⟩))
  | @enqueue i p' flags hc =>
    have h' : { s with toStart := s.toStart ++ [p'] }.Pending p :=
      h.of_setCaller rfl rfl rfl (by simp)
    rcases h' with h' | h'
    · rcases List.mem_append.1 h' with h' | h'
      · exact .inl (.inl h')
      · exact .inl (.inr (.inr ⟨i, flags, List.mem_singleton.1 h' ▸ hc⟩))
    · exact .inl (.inr h')
  | pollReturn => exact .inl (h.of_setCaller rfl rfl rfl (by simp))
  | pollStarted => exact .inl (h.of_setCaller rfl rfl rfl (by simp))
  | take => exact .inl (h.of_setCaller rfl rfl rfl (by simp))
  | release => exact .inl (h.of_setCaller rfl rfl rfl (by simp))
  | _ => exact .inl h

/-- The words of an allocated request stay. -/
theorem task_of_step {s s' : TaskSys} {a : TaskAct} {p : ℕ} (hst : Step s a s')
    (hp : p < s.allocated) :
    p < s'.allocated ∧ (s'.requests p).task = (s.requests p).task := by
  have hupd : ∀ q r, r.task = (s.requests q).task →
      (Function.update s.requests q r p).task = (s.requests p).task := by
    intro q r hr
    by_cases hpq : p = q
    · subst hpq
      rw [Function.update_self, hr]
    · rw [Function.update_of_ne hpq]
  cases hst with
  | create => exact ⟨hp, hupd _ _ rfl⟩
  | free => exact ⟨hp, hupd _ _ rfl⟩
  | setStarted => exact ⟨hp, hupd _ _ rfl⟩
  | call => exact ⟨Nat.lt_succ_of_lt hp, congrArg _ (Function.update_of_ne hp.ne ..)⟩
  | release => exact ⟨hp, hupd _ _ rfl⟩
  | _ => exact ⟨hp, rfl⟩

/-- What holds of the tasks of all calls holds of the requests on their way. -/
theorem pendingAll_step {Q : NTask → Prop} {s s' : TaskSys} {a : TaskAct} (h : PendingAll Q s)
    (hst : Step s a s')
    (hQ : ∀ i task flags b junk, a = .call i task flags b junk true → Q task) :
    PendingAll Q s' := by
  intro p hp
  rcases pending_of_step hst hp with hp | ⟨rfl, i, task, flags, b, junk, ha, htask, halloc⟩
  · obtain ⟨hlt, hq⟩ := h p hp
    obtain ⟨hlt', htask⟩ := task_of_step hst hlt
    exact ⟨hlt', htask ▸ hq⟩
  · exact ⟨halloc ▸ Nat.lt_succ_self _, htask ▸ hQ _ _ _ _ _ ha⟩

/-! ### Who empties the mailbox -/

/-- The invariant: every word in the mailbox has a thread that will take it, or the service thread
is on the way to creating one. -/
structure MailboxInv (s : TaskSys) : Prop where
  /-- A thread before its first exchange, or about to be created, has its stack in the mailbox, and
  there is no other such thread. -/
  starts : s.stubs.countP NewThread.beforeEsp + (if s.service.hasEsp then 1 else 0) =
    if s.mailbox.esp = 0 then 0 else 1
  /-- The service thread goes on only if it finds no stack. -/
  noEsp : s.service.sawNoEsp = true → s.mailbox.esp = 0
  /-- An entry point has a thread that will take it. -/
  eipTaken : s.mailbox.eip ≠ 0 →
    (∃ x ∈ s.stubs, x.beforeEip = true) ∨ ∃ p, s.service = .create p
  /-- An argument has a thread that will take it. -/
  prevTaken : s.mailbox.prev ≠ 0 → s.stubs ≠ [] ∨ s.service.filling = true
  /-- The requests on their way come with a stack. -/
  pending : PendingAll (fun task => task.esp ≠ 0) s

/-- The service thread comes no further with the mailbox by going from `pc` to `pc'`. -/
structure SameFill (s : TaskSys) (pc' : ServicePc) : Prop where
  /-- It has put a stack into the mailbox or not. -/
  hasEsp : pc'.hasEsp = s.service.hasEsp
  /-- It does not leave off. -/
  filling : s.service.filling = true → pc'.filling = true
  /-- It does not leave off. -/
  create : ∀ p, s.service = .create p → ∃ p, pc' = .create p
  /-- It goes on only if there is no stack in the mailbox. -/
  sawNoEsp : pc'.sawNoEsp = true → s.service.sawNoEsp = true ∨ s.mailbox.esp = 0

theorem sameFill_refl (s : TaskSys) : s.SameFill s.service :=
  ⟨rfl, id, fun p hp => ⟨p, hp⟩, .inl⟩

theorem sameFill_of_moves {s : TaskSys} {pc : ServicePc} (h : s.Moves pc) : s.SameFill pc := by
  cases h <;> constructor <;>
    simp_all [ServicePc.filling, ServicePc.hasEsp, ServicePc.sawNoEsp]

theorem filling_of_moves {s : TaskSys} {pc : ServicePc} (h : s.Moves pc) :
    pc.filling = false := by
  cases h <;> rfl

theorem MailboxInv.of_same {s s' : TaskSys} (h : MailboxInv s)
    (hpend : PendingAll (fun task => task.esp ≠ 0) s') (hm : s'.mailbox = s.mailbox)
    (hl : s'.stubs = s.stubs) (hf : s.SameFill s'.service) : MailboxInv s' := by
  refine ⟨?_, ?_, ?_, ?_, hpend⟩
  · rw [hl, hm, hf.hasEsp]
    exact h.starts
  · intro hs
    rw [hm]
    exact (hf.sawNoEsp hs).elim h.noEsp id
  · intro heip
    rw [hm] at heip
    rw [hl]
    exact (h.eipTaken heip).imp_right fun ⟨p, hp⟩ => hf.create p hp
  · intro hprev
    rw [hm] at hprev
    rw [hl]
    exact (h.prevTaken hprev).imp_right hf.filling

theorem filling_of_hasEsp {pc : ServicePc} (h : pc.hasEsp = true) : pc.filling = true := by
  cases pc <;> first | rfl | cases h

/-- Outside of the filling nothing counts but the tests. -/
theorem sameFill_of_not_filling {s : TaskSys} {pc pc' : ServicePc} (hpc : s.service = pc)
    (hf : pc.filling = false) (hf' : pc'.filling = false) (hs : pc'.sawNoEsp = false) :
    s.SameFill pc' := by
  have hno : ∀ {pc : ServicePc}, pc.filling = false → pc.hasEsp = false := by
    intro pc h
    by_contra he
    rw [filling_of_hasEsp (Bool.eq_true_of_not_eq_false he)] at h
    cases h
  subst hpc
  refine ⟨(hno hf').trans (hno hf).symm, ?_, ?_, ?_⟩
  · intro h
    exact absurd (hf.symm.trans h) Bool.false_ne_true
  · intro p hp
    rw [hp] at hf
    cases hf
  · intro h
    exact absurd (hs.symm.trans h) Bool.false_ne_true

/-- A thread before its first exchange finds its stack. -/
theorem MailboxInv.esp_ne_zero {s : TaskSys} (h : MailboxInv s) {k p : ℕ}
    (hk : s.stubs[k]? = some ⟨p, .start⟩) : s.mailbox.esp ≠ 0 := by
  intro hm
  have hpos : 0 < s.stubs.countP NewThread.beforeEsp :=
    List.countP_pos_iff.2 ⟨_, List.mem_of_getElem? hk, rfl⟩
  have := h.starts
  rw [if_pos hm] at this
  omega

/-- Before the service thread creates a thread, an entry point is for one in its stub. -/
theorem MailboxInv.beforeEip {s : TaskSys} (h : MailboxInv s) (hpc : ∀ p, s.service ≠ .create p)
    (heip : s.mailbox.eip ≠ 0) : ∃ x ∈ s.stubs, x.beforeEip = true := by
  rcases h.eipTaken heip with hx | ⟨p, hp⟩
  · exact hx
  · exact absurd hp (hpc p)

/-- The service thread puts the stack into the mailbox. -/
theorem MailboxInv.fillEsp {s s' : TaskSys} (h : MailboxInv s) {p : ℕ}
    (hpc : s.service = .fillEsp p)
    (hs' : s' = { s.touch [p] with
      mailbox := { s.mailbox with esp := (s.requests p).task.esp }, service := .fillEip p })
    (hpend : PendingAll (fun task => task.esp ≠ 0) s') : MailboxInv s' := by
  subst hs'
  have hesp : s.mailbox.esp = 0 := h.noEsp (by rw [hpc]; rfl)
  have hnew : (s.requests p).task.esp ≠ 0 :=
    (h.pending p (.inr (.inl (by rw [hpc]; exact List.mem_cons_self)))).2
  refine ⟨?_, nofun, fun heip => .inl ?_, fun _ => .inr rfl, hpend⟩
  · -- no thread is before its first exchange, so there is room for the new one
    have hnone : s.stubs.countP NewThread.beforeEsp + 0 = 0 := by
      have := h.starts
      rwa [hpc, if_pos hesp] at this
    change s.stubs.countP NewThread.beforeEsp + 1 = if (s.requests p).task.esp = 0 then 0 else 1
    rw [if_neg hnew]
    omega
  · exact h.beforeEip (fun _ hp => by cases hpc.symm.trans hp) heip

/-- The new thread is to take what is in the mailbox. -/
theorem MailboxInv.create {s s' : TaskSys} (h : MailboxInv s) {p : ℕ} {tid : ULONG}
    (hpc : s.service = .create p) (hs' : s' = s.create p (some tid))
    (hpend : PendingAll (fun task => task.esp ≠ 0) s') : MailboxInv s' := by
  subst hs'
  refine ⟨?_, nofun, fun _ => .inl ⟨⟨p, .start⟩, ?_, rfl⟩, fun _ => .inl ?_, hpend⟩
  · have : s.stubs.countP NewThread.beforeEsp + 1 = if s.mailbox.esp = 0 then 0 else 1 := by
      have := h.starts
      rwa [hpc] at this
    exact (List.countP_append ..).trans this
  · exact List.mem_append_right _ List.mem_cons_self
  · exact List.append_ne_nil_of_right_ne_nil _ nofun

/-- A thread takes its stack out of the mailbox, and there is no other one for it. -/
theorem MailboxInv.stubEsp {s s' : TaskSys} (h : MailboxInv s) {k p : ℕ}
    (hk : s.stubs[k]? = some ⟨p, .start⟩) (hm : s.mailbox.esp ≠ 0)
    (hs' : s' = { s with
      mailbox := { s.mailbox with esp := 0 }, stubs := s.stubs.set k ⟨p, .esp s.mailbox.esp⟩ })
    (hpend : PendingAll (fun task => task.esp ≠ 0) s') : MailboxInv s' := by
  subst hs'
  have hl := Pick.perm hk
  have hl' := Pick.perm_set hk
  have hone : (s.stubs.eraseIdx k).countP NewThread.beforeEsp + 1 +
      (if s.service.hasEsp then 1 else 0) = 1 := by
    have := h.starts
    rwa [if_neg hm, hl.countP_eq, List.countP_cons_of_pos rfl] at this
  refine ⟨?_, fun _ => rfl, fun _ => .inl ⟨⟨p, .esp s.mailbox.esp⟩, ?_, rfl⟩,
    fun _ => .inl ?_, hpend⟩
  · change (s.stubs.set k _).countP NewThread.beforeEsp + (if s.service.hasEsp then 1 else 0) = 0
    rw [(hl' _).countP_eq, List.countP_cons_of_neg Bool.false_ne_true]
    omega
  · exact (hl' _).mem_iff.2 List.mem_cons_self
  · exact List.ne_nil_of_mem ((hl' _).mem_iff.2 List.mem_cons_self)

/-- A thread takes its entry point. -/
theorem MailboxInv.stubEip {s s' : TaskSys} (h : MailboxInv s) {k p : ℕ} {esp : ULONG}
    (hk : s.stubs[k]? = some ⟨p, .esp esp⟩)
    (hs' : s' = { s with
      mailbox := { s.mailbox with eip := 0 }, stubs := s.stubs.set k ⟨p, .eip esp s.mailbox.eip⟩ })
    (hpend : PendingAll (fun task => task.esp ≠ 0) s') : MailboxInv s' := by
  subst hs'
  have hl := Pick.perm hk
  have hl' := Pick.perm_set hk
  refine ⟨?_, h.noEsp, fun heip => absurd rfl heip, fun _ => .inl ?_, hpend⟩
  · -- it is past its first exchange, before and after
    have := h.starts
    rw [hl.countP_eq, List.countP_cons_of_neg Bool.false_ne_true] at this
    change (s.stubs.set k _).countP NewThread.beforeEsp + (if s.service.hasEsp then 1 else 0) = _
    rwa [(hl' _).countP_eq, List.countP_cons_of_neg Bool.false_ne_true]
  · exact List.ne_nil_of_mem ((hl' _).mem_iff.2 List.mem_cons_self)

/-- A thread takes the last of the three and leaves its stub. -/
theorem MailboxInv.stubPrev {s s' : TaskSys} (h : MailboxInv s) {k p : ℕ} {esp eip : ULONG}
    (hk : s.stubs[k]? = some ⟨p, .eip esp eip⟩)
    (hs' : s' = { s with
      mailbox := { s.mailbox with prev := 0 }, stubs := s.stubs.eraseIdx k })
    (hpend : PendingAll (fun task => task.esp ≠ 0) s') : MailboxInv s' := by
  subst hs'
  have hl := Pick.perm hk
  refine ⟨?_, h.noEsp, ?_, fun hprev => absurd rfl hprev, hpend⟩
  · have := h.starts
    rwa [hl.countP_eq, List.countP_cons_of_neg Bool.false_ne_true] at this
  · intro heip
    rcases h.eipTaken heip with ⟨x, hx, hb⟩ | hp
    · rcases List.mem_cons.1 (hl.mem_iff.1 hx) with rfl | hx
      · cases hb
      · exact .inl ⟨x, hx, hb⟩
    · exact .inr hp

theorem mailboxInv_step {s s' : TaskSys} {a : TaskAct} (h : MailboxInv s) (hg : Starts s a)
    (hst : Step s a s') : MailboxInv s' := by
  have hpend : PendingAll (fun task => task.esp ≠ 0) s' := by
    refine pendingAll_step h.pending hst ?_
    rintro i task flags b junk rfl
    exact hg
  cases hst with
  | move hm => exact h.of_same hpend rfl rfl (sameFill_of_moves hm)
  | reset hpc => exact h.of_same hpend rfl rfl (sameFill_of_not_filling hpc rfl rfl rfl)
  | testWait hpc => exact h.of_same hpend rfl rfl (sameFill_of_not_filling hpc rfl rfl rfl)
  | testNoWait hpc => exact h.of_same hpend rfl rfl (sameFill_of_not_filling hpc rfl rfl rfl)
  | free hpc => exact h.of_same hpend rfl rfl (sameFill_of_not_filling hpc rfl rfl rfl)
  | setStarted hpc => exact h.of_same hpend rfl rfl (sameFill_of_not_filling hpc rfl rfl rfl)
  | pop hpc =>
    refine h.of_same hpend rfl rfl ⟨by rw [hpc]; rfl, fun _ => rfl, ?_, ?_⟩
    · intro p hp
      cases hpc.symm.trans hp
    · exact fun _ => .inl (by rw [hpc]; rfl)
  | fillPrev hpc =>
    have hesp : s.mailbox.esp = 0 := h.noEsp (by rw [hpc]; rfl)
    refine ⟨?_, fun _ => hesp, fun heip => .inl ?_, fun _ => .inr rfl, hpend⟩
    · have := h.starts
      rwa [hpc] at this
    · exact h.beforeEip (fun _ hp => by cases hpc.symm.trans hp) heip
  | fillEsp hpc => exact h.fillEsp hpc rfl hpend
  | fillEip hpc =>
    refine ⟨?_, nofun, fun _ => .inr ⟨_, rfl⟩, fun _ => .inr rfl, hpend⟩
    have := h.starts
    rwa [hpc] at this
  | createFails => exact hg.elim
  | create hpc => exact h.create hpc rfl hpend
  | stubFails hk hm => exact absurd hm (h.esp_ne_zero hk)
  | stubEsp hk hm => exact h.stubEsp hk hm rfl hpend
  | stubEip hk => exact h.stubEip hk rfl hpend
  | stubPrev hk => exact h.stubPrev hk rfl hpend
  | _ => exact h.of_same hpend rfl rfl (sameFill_refl s)

theorem mailboxInv_init : MailboxInv machine.init := by
  refine ⟨rfl, nofun, fun h => absurd rfl h, fun h => absurd rfl h, ?_⟩
  rintro p (h | h | ⟨i, flags, h⟩) <;> cases h

/-- A thread in its stub can always go on, without the service thread. -/
theorem rank_stub {s : TaskSys} {x : NewThread} {rest : List NewThread} (hl : s.stubs = x :: rest) :
    ∃ s', machine.step s (.stub 0) = some s' ∧ s'.service = s.service ∧ s'.toStart = s.toStart ∧
      (s'.stubs.map NewThread.rank).sum < (s.stubs.map NewThread.rank).sum := by
  have hk : s.stubs[0]? = some x := by rw [hl]; rfl
  have hst : machine.step s (.stub 0) = some (s.stubStep 0 x) := by
    simp only [machine, step, hk]
  refine ⟨_, hst, ?_⟩
  obtain ⟨p, x⟩ := x
  cases x with
  | start =>
    refine ⟨rfl, rfl, ?_⟩
    change ((if s.mailbox.esp = 0 then s.stubs.eraseIdx 0 else s.stubs.set 0 _).map _).sum < _
    rw [hl]
    split_ifs
    · simp [NewThread.rank]
    · simp [NewThread.rank]
  | esp =>
    refine ⟨rfl, rfl, ?_⟩
    change ((s.stubs.set 0 _).map _).sum < _
    simp [hl, NewThread.rank]
  | eip =>
    refine ⟨rfl, rfl, ?_⟩
    change ((s.stubs.eraseIdx 0).map _).sum < _
    simp [hl, NewThread.rank]

/-- Without a thread the mailbox is empty. -/
theorem mailbox_eq_empty {s : TaskSys} (h : MailboxInv s) (hf : s.service.filling = false)
    (hl : s.stubs = []) : s.mailbox = .empty := by
  have hesp : s.mailbox.esp = 0 := by
    have hno : s.service.hasEsp ≠ true := fun he =>
      absurd (hf.symm.trans (filling_of_hasEsp he)) Bool.false_ne_true
    have := h.starts
    rw [hl, if_neg hno] at this
    by_contra hne
    rw [if_neg hne] at this
    cases this
  have heip : s.mailbox.eip = 0 := by
    by_contra hne
    rcases h.eipTaken hne with ⟨x, hx, -⟩ | ⟨p, hp⟩
    · rw [hl] at hx; cases hx
    · rw [hp] at hf; cases hf
  have hprev : s.mailbox.prev = 0 := by
    by_contra hne
    rcases h.prevTaken hne with hne | hf'
    · exact hne hl
    · exact absurd (hf.symm.trans hf') Bool.false_ne_true
  calc s.mailbox = ⟨s.mailbox.esp, s.mailbox.eip, s.mailbox.prev⟩ := rfl
    _ = .empty := by rw [hesp, heip, hprev]; rfl

/-- **The threads empty the mailbox.** -/
theorem willEmpty_of_inv {s : TaskSys} (h : MailboxInv s) (hf : s.service.filling = false) :
    s.WillEmpty := by
  induction hn : (s.stubs.map NewThread.rank).sum using Nat.strong_induction_on generalizing s with
  | _ n ih =>
    match hl : s.stubs with
    | [] => exact ⟨[], s, rfl, mailbox_eq_empty h hf hl⟩
    | x :: rest =>
      obtain ⟨s₁, hst, hsv, -, hlt⟩ := rank_stub hl
      have hg : Starts s (.stub 0) := trivial
      have h₁ : MailboxInv s₁ := mailboxInv_step h hg (step_cases hst)
      obtain ⟨ks, s', hrun, hm⟩ := ih _ (hn ▸ hlt) h₁ (hsv ▸ hf) rfl
      refine ⟨0 :: ks, s', ?_, hm⟩
      simpa only [List.map_cons, Machine.exec, hst, Option.bind_some] using hrun

/-- **The service thread does not get stuck** as long as every creation succeeds and every thread
has a stack. -/
theorem not_stuck {as : List TaskAct} {s : TaskSys} (h : machine.Run Starts machine.init as s) :
    ¬ s.Stuck := by
  have hI : MailboxInv s :=
    h.invariant (fun _ _ _ hI hg hst => mailboxInv_step hI hg (step_cases hst)) mailboxInv_init
  rintro ⟨-, -, hf, hno⟩
  exact hno (willEmpty_of_inv hI hf)

/-! ### What a failed creation leaves behind -/

/-- A stack is in the mailbox, no thread is before its first exchange, and the service thread will
not fill the mailbox or create a thread before it has found the mailbox empty. -/
structure Blocked (s : TaskSys) : Prop where
  /-- There is a stack in the mailbox. -/
  esp : s.mailbox.esp ≠ 0
  /-- Nobody will take it. -/
  stubs : ∀ x ∈ s.stubs, x.beforeEsp = false
  /-- The service thread is before its tests. -/
  filling : s.service.filling = false
  /-- It has not passed the test of the stack. -/
  sawNoEsp : s.service.sawNoEsp = false

/-- What holds of the threads still holds after one of them has moved so that it does. -/
theorem forall_mem_set {l : List NewThread} {k : ℕ} {P : NewThread → Prop} {y : NewThread}
    (h : ∀ x ∈ l, P x) (hy : P y) : ∀ x ∈ l.set k y, P x := by
  intro x hx
  rcases List.mem_or_eq_of_mem_set hx with hx | rfl
  · exact h x hx
  · exact hy

/-- **The mailbox stays occupied for ever**, and no request leaves the list. -/
theorem blocked_step {s s' : TaskSys} {a : TaskAct} (h : Blocked s) (hst : Step s a s') :
    Blocked s' ∧ s.toStart <+: s'.toStart := by
  have hsaw : ∀ {pc}, s.service = pc → pc.sawNoEsp ≠ true := by
    rintro _ rfl hs
    exact Bool.false_ne_true (h.sawNoEsp.symm.trans hs)
  have hfill : ∀ {pc}, s.service = pc → pc.filling ≠ true := by
    rintro _ rfl hf
    exact Bool.false_ne_true (h.filling.symm.trans hf)
  have hstart : ∀ {k p : ℕ}, s.stubs[k]? ≠ some ⟨p, .start⟩ := by
    intro k p hk
    cases h.stubs _ (List.mem_of_getElem? hk)
  obtain ⟨hesp, hstubs, hf, hs⟩ := h
  cases hst with
  | @move pc hm =>
    refine ⟨⟨hesp, hstubs, filling_of_moves hm, ?_⟩, List.prefix_rfl⟩
    by_contra hs'
    rcases (sameFill_of_moves hm).sawNoEsp (Bool.eq_true_of_not_eq_false hs') with hs' | h0
    · exact Bool.false_ne_true (hs.symm.trans hs')
    · exact hesp h0
  | reset => exact ⟨⟨hesp, hstubs, rfl, rfl⟩, List.prefix_rfl⟩
  | pop hpc => exact absurd rfl (hsaw hpc)
  | fillPrev hpc => exact absurd rfl (hfill hpc)
  | fillEsp hpc => exact absurd rfl (hfill hpc)
  | fillEip hpc => exact absurd rfl (hfill hpc)
  | createFails hpc => exact absurd rfl (hfill hpc)
  | create hpc => exact absurd rfl (hfill hpc)
  | testWait => exact ⟨⟨hesp, hstubs, rfl, rfl⟩, List.prefix_rfl⟩
  | testNoWait => exact ⟨⟨hesp, hstubs, rfl, rfl⟩, List.prefix_rfl⟩
  | free => exact ⟨⟨hesp, hstubs, rfl, rfl⟩, List.prefix_rfl⟩
  | setStarted => exact ⟨⟨hesp, hstubs, rfl, rfl⟩, List.prefix_rfl⟩
  | enqueue => exact ⟨⟨hesp, hstubs, hf, hs⟩, List.prefix_append ..⟩
  | stubFails hk => exact absurd hk hstart
  | stubEsp hk => exact absurd hk hstart
  | stubEip hk => exact ⟨⟨hesp, forall_mem_set hstubs rfl, hf, hs⟩, List.prefix_rfl⟩
  | stubPrev hk =>
    refine ⟨⟨hesp, fun x hx => ?_, hf, hs⟩, List.prefix_rfl⟩
    exact hstubs x (List.mem_of_mem_eraseIdx hx)
  | _ => exact ⟨⟨hesp, hstubs, hf, hs⟩, List.prefix_rfl⟩

theorem blocked_forever {s s' : TaskSys} {as : List TaskAct} (h : Blocked s)
    (hrun : machine.exec s as = some s') : Blocked s' ∧ s.toStart <+: s'.toStart := by
  have hstep : ∀ t a t', (Blocked t ∧ s.toStart <+: t.toStart) → Machine.anyStep t a →
      machine.step t a = some t' → Blocked t' ∧ s.toStart <+: t'.toStart := by
    rintro t a t' ⟨hb, hpre⟩ - hst
    obtain ⟨hb', hpre'⟩ := blocked_step hb (step_cases hst)
    exact ⟨hb', hpre.trans hpre'⟩
  exact (Machine.run_anyStep_iff.2 hrun).invariant hstep ⟨h, List.prefix_rfl⟩

theorem stuck_of_blocked {s : TaskSys} (h : Blocked s) (hl : s.toStart ≠ []) : s.Stuck := by
  refine ⟨hl, fun hm => h.esp (congrArg NTask.esp hm), h.filling, ?_⟩
  rintro ⟨ks, s', hrun, hm⟩
  exact (blocked_forever h hrun).1.esp (congrArg NTask.esp hm)

/-- A failed creation blocks the service thread for ever. -/
theorem blocked_of_createFails {s s' : TaskSys} (h : MailboxInv s)
    (hst : machine.step s (.create none) = some s') : Blocked s' := by
  cases step_cases hst with
  | @createFails p hpc =>
    have hsum : s.stubs.countP NewThread.beforeEsp + 1 = if s.mailbox.esp = 0 then 0 else 1 := by
      have := h.starts
      rwa [hpc] at this
    by_cases hesp : s.mailbox.esp = 0
    · rw [if_pos hesp] at hsum
      omega
    · rw [if_neg hesp] at hsum
      have hnone : s.stubs.countP NewThread.beforeEsp = 0 := by omega
      refine ⟨hesp, fun x hx => ?_, rfl, rfl⟩
      exact Bool.eq_false_of_not_eq_true (List.countP_eq_zero.1 hnone x hx)

/-- So the service thread is stuck from then on, whatever happens, as soon as and as long as there
is a request in the list. -/
theorem stuck_of_createFails {as bs : List TaskAct} {s s' s'' : TaskSys}
    (h : machine.Run Starts machine.init as s) (hst : machine.step s (.create none) = some s')
    (hrun : machine.exec s' bs = some s'') (hl : s''.toStart ≠ []) : s''.Stuck := by
  have hI : MailboxInv s :=
    h.invariant (fun _ _ _ hI hg hst => mailboxInv_step hI hg (step_cases hst)) mailboxInv_init
  exact stuck_of_blocked (blocked_forever (blocked_of_createFails hI hst) hrun).1 hl

/-! ### Runs -/

/-- A request of caller `i`. -/
def queue (i : ℕ) (task : NTask) (flags : ULONG) : List TaskAct :=
  [.call i task flags false 0 true, .enqueue i]

/-- The steps of the service thread from the beginning of an iteration to `LXA_CreateThread`. -/
def toCreate : List TaskAct := List.replicate 10 .service

/-- Two requests are queued, and the creation of the first thread fails. -/
def failedCreate : List TaskAct :=
  queue 0 ⟨1, 2, 3⟩ 0 ++ queue 1 ⟨4, 5, 6⟩ 0 ++ toCreate ++ [.create none]

/-- The service thread is stuck, and it stays so for ever. -/
theorem stuck_run : ∃ s, machine.exec machine.init failedCreate = some s ∧ s.Stuck ∧
    ∀ bs s', machine.exec s bs = some s' → s'.Stuck := by
  have hb : ∃ s, machine.exec machine.init failedCreate = some s ∧ Blocked s ∧ s.toStart = [1] :=
    ⟨_, rfl, ⟨by decide, by decide, rfl, rfl⟩, rfl⟩
  obtain ⟨s, hrun, hb, hl⟩ := hb
  have hforever : ∀ bs s', machine.exec s bs = some s' → s'.Stuck := by
    intro bs s' hbs
    obtain ⟨hb', hpre⟩ := blocked_forever hb hbs
    exact stuck_of_blocked hb' (List.ne_nil_of_mem (hpre.subset (hl ▸ List.mem_singleton_self 1)))
  exact ⟨s, hrun, hforever [] s rfl, hforever⟩

/-- The same requests with a creation that succeeds. -/
def goodCreate : List TaskAct :=
  queue 0 ⟨1, 2, 3⟩ 0 ++ queue 1 ⟨4, 5, 6⟩ 0 ++ toCreate ++ [.create (some 7)]

def startsTest (_ : TaskSys) : TaskAct → Bool
  | .create tid => tid.isSome
  | .call _ task _ _ _ _ => task.esp != 0
  | _ => true

theorem starts_of_test (s : TaskSys) (a : TaskAct) (h : startsTest s a = true) :
    s.Starts a := by
  cases a with
  | create tid =>
    cases tid with
    | none => cases h
    | some tid => trivial
  | call => exact bne_iff_ne.1 h
  | _ => trivial

/-- `not_stuck` on this run: the mailbox is full and a request waits, but not for ever. -/
theorem not_stuck_goodCreate : ∃ s, machine.exec machine.init goodCreate = some s ∧
    s.toStart = [1] ∧ s.mailbox = ⟨1, 2, 3⟩ ∧ ¬ s.Stuck := by
  have h : ∃ s, machine.exec machine.init goodCreate = some s ∧ s.toStart = [1] ∧
      s.mailbox = ⟨1, 2, 3⟩ := ⟨_, rfl, rfl, rfl⟩
  obtain ⟨s, hrun, hl, hm⟩ := h
  exact ⟨s, hrun, hl, hm, not_stuck (Machine.run_of_check starts_of_test hrun rfl)⟩

end TaskSys

end LxApi32
