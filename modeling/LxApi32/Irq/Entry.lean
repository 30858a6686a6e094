import LxApi32.Irq.Lines

/-!
# Interrupts

`LX_IRQEntry` is called for an interrupt and has `do_IRQ` call the handlers of the line, one after
the other.  Its result tells OS/2 whether the interrupt is claimed, or to be passed on to the next
driver.  While a handler runs further interrupts can come, of the same line too: `do_IRQ` marks the
line as pending then, and the calls that are under way begin again with the first handler.

The test that decides about the claim is `if(LX_irq_handled)`: it names the function and does not
call it.

* `IrqSys.always_serialized` : no line has two interrupts in progress, and the handlers that are
  being called are those of the line.
* `IrqSys.along_rightlyClaimed_iff` : interrupts are claimed exactly if they are handled, exactly if
  there never is an interrupt that is not handled.

The interrupts in progress are kept in frames, the innermost one first.
-/

namespace LxApi32

/-- `IRQ_HANDLED` -/
def irqHandled : ULONG := 1

/-- `IRQ_STATE_CLAIMED` -/
def irqStateClaimed : ULONG := 0x10000

/-- `IRQ_STATE_EOI` -/
def irqStateEoi : ULONG := 0x20000

/-- A call of `LX_IRQEntry` that is calling a handler. -/
structure IrqFrame where
  /-- `irq` -/
  irq : ℕ
  /-- The list that `do_IRQ` has found. -/
  action : List Irqaction
  /-- The actions after the one whose handler is being called. -/
  rest : List Irqaction
  /-- `retval` of `handle_IRQ_event` -/
  retval : ULONG
  /-- Its `lx_irq_handled`. -/
  lxIrqHandled : Bool
  /-- What the handlers have returned so far. -/
  returned : List ULONG
  deriving DecidableEq, Repr

/-- A call of `LX_IRQEntry` that has returned. -/
structure IrqReturn where
  /-- Its result. -/
  value : ULONG
  /-- What the handlers have returned that it has called. -/
  returned : List ULONG
  deriving DecidableEq, Repr

/-- The interrupt was claimed exactly if a handler has handled it. -/
def IrqReturn.RightlyClaimed (r : IrqReturn) : Prop :=
  r.value &&& irqStateClaimed ≠ 0 ∧ r.value &&& irqStateEoi ≠ 0 ↔
    ∃ v ∈ r.returned, v &&& irqHandled ≠ 0

/-- `ToDoAfterIrq` at the end of `LX_IRQEntry`. -/
def toDoAfterIrq (irq : ℕ) : ULONG :=
  -- `if(LX_irq_handled)`
  BitVec.ofNat 32 irq ||| irqStateClaimed ||| irqStateEoi

/-- The beginning of `do_IRQ`: the actions whose handlers it will call. -/
def IrqLine.commit (l : IrqLine) : List Irqaction × IrqLine :=
  let status := l.desc.status &&& ~~~(irqReplay ||| irqWaiting) ||| irqPending
  if status &&& (irqDisabled ||| irqInprogress) = 0 then
    (l.desc.action, { l with desc := { l.desc with
      status := status &&& ~~~irqPending ||| irqInprogress } })
  else ([], { l with desc := { l.desc with status } })

/-- `disable_irq_nosync` -/
def IrqLine.disableIrqNosync (l : IrqLine) : IrqLine :=
  { l with desc := { l.desc with
    status := if l.desc.depth = 0 then l.desc.status ||| irqDisabled else l.desc.status
    depth := l.desc.depth + 1 } }

/-- `enable_irq` -/
def IrqLine.enableIrq (l : IrqLine) : IrqLine :=
  if l.desc.depth = 0 then l
  else if l.desc.depth = 1 then
    let status := l.desc.status &&& ~~~irqDisabled
    { l with desc := { l.desc with
      status := if status &&& (irqPending ||| irqReplay) = irqPending then status ||| irqReplay
        else status
      depth := 0 } }
  else { l with desc := { l.desc with depth := l.desc.depth - 1 } }

/-- What happens. -/
inductive IrqAct
  /-- `LX_IRQEntry` is called. -/
  | arrive (irq : ℕ)
  /-- The handler that the innermost interrupt has called returns. -/
  | handlerReturns (v : ULONG)
  /-- A handler, or a task, makes a call. -/
  | call (c : IrqCall)
  /-- `disable_irq_nosync` -/
  | disableIrqNosync (irq : ℕ)
  /-- `enable_irq` -/
  | enableIrq (irq : ℕ)
  deriving DecidableEq, Repr

/-- The lines, and the interrupts in progress. -/
structure IrqSys where
  /-- The lines. -/
  lines : IrqLines
  /-- The interrupts. -/
  frames : List IrqFrame

namespace IrqSys

/-- A line is changed. -/
def setLine (s : IrqSys) (irq : ℕ) (l : IrqLine) : IrqSys :=
  { s with lines := Function.update s.lines irq l }

/-- `LX_IRQEntry` as far as the first handler. -/
def arrive (s : IrqSys) (irq : ℕ) : IrqSys × Option IrqReturn :=
  if irq ≤ 15 then
    let (action, l) := (s.lines irq).commit
    let s := s.setLine irq l
    match action with
    | [] => (s, some ⟨toDoAfterIrq irq, []⟩)
    | _ :: rest => ({ s with frames := ⟨irq, action, rest, 0, false, []⟩ :: s.frames }, none)
  else (s, some ⟨0, []⟩)

/-- From the return of a handler as far as the next one, or to the end of `LX_IRQEntry`. -/
def handlerReturns (s : IrqSys) (f : IrqFrame) (fs : List IrqFrame) (v : ULONG) :
    IrqSys × Option IrqReturn :=
  let retval := f.retval ||| v
  let handled := retval &&& irqHandled ≠ 0 ∧ f.lxIrqHandled = false
  let l := s.lines f.irq
  -- `LX_set_irq_handled`
  let l := if handled then { l with state := { l.state with handled := 1 } } else l
  let f := { f with
    retval, lxIrqHandled := f.lxIrqHandled || decide handled, returned := f.returned ++ [v] }
  match f.rest with
  | _ :: rest => ({ (s.setLine f.irq l) with frames := { f with rest } :: fs }, none)
  | [] =>
    if l.desc.status &&& irqPending = 0 then
      let status := l.desc.status &&& ~~~irqInprogress
      ({ (s.setLine f.irq { l with desc := { l.desc with status } }) with frames := fs },
        some ⟨toDoAfterIrq f.irq, f.returned⟩)
    else
      let status := l.desc.status &&& ~~~irqPending
      ({ (s.setLine f.irq { l with desc := { l.desc with status } }) with
        frames := { f with rest := f.action.tail, retval := 0, lxIrqHandled := false } :: fs },
        none)

/-- `free_irq` waits for a handler that it has interrupted. -/
def Waits (l : IrqLine) : IrqCall → Prop
  | .freeIrq irq devId =>
    irq < nrIrqs ∧ (∃ a ∈ l.desc.action, a.devId = devId) ∧ l.desc.status &&& irqInprogress ≠ 0
  | _ => False

instance (l : IrqLine) (c : IrqCall) : Decidable (Waits l c) :=
  match c with
  | .freeIrq .. => inferInstanceAs (Decidable (_ ∧ _ ∧ _))
  | .requestIrq .. | .setupIrq .. => isFalse id

/-- A call; an action that it links at the end of a list is also seen by the interrupts that go
through this list. -/
def call (s : IrqSys) (c : IrqCall) : Option IrqSys :=
  if Waits (s.lines c.irq) c then none
  else (s.lines.step c).map fun lines =>
    let more := (lines c.irq).desc.action.drop (s.lines c.irq).desc.action.length
    ⟨lines, s.frames.map fun f =>
      if f.irq = c.irq then { f with action := f.action ++ more, rest := f.rest ++ more } else f⟩

/-- A step, and the `LX_IRQEntry` that it ends. -/
def stepRet (s : IrqSys) : IrqAct → Option (IrqSys × Option IrqReturn)
  | .arrive irq => some (s.arrive irq)
  | .handlerReturns v =>
    match s.frames with
    | [] => none
    | f :: fs => some (s.handlerReturns f fs v)
  | .call c => (s.call c).map fun s => (s, none)
  | .disableIrqNosync irq => some (s.setLine irq (s.lines irq).disableIrqNosync, none)
  | .enableIrq irq => some (s.setLine irq (s.lines irq).enableIrq, none)

/-- The machine of the interrupts. -/
def machine : Machine IrqSys IrqAct where
  init := ⟨IrqLines.initISAIrqs, []⟩
  step s a := (s.stepRet a).map Prod.fst

/-- What the `LX_IRQEntry` that ends returns is right. -/
def RightlyClaimed (s : IrqSys) (a : IrqAct) : Prop :=
  ∀ next ∈ s.stepRet a, ∀ r ∈ next.2, r.RightlyClaimed

/-- An interrupt finds a line that is neither disabled nor in progress and has a handler, and before
its last handler returns one has handled it. -/
def Handled (s : IrqSys) : IrqAct → Prop
  | .arrive irq => irq ≤ 15 →
    (s.lines irq).desc.status &&& (irqDisabled ||| irqInprogress) = 0 ∧
      (s.lines irq).desc.action ≠ []
  | .handlerReturns v => ∀ f ∈ s.frames.head?, f.rest = [] →
    (s.lines f.irq).desc.status &&& irqPending = 0 →
      ∃ w ∈ f.returned ++ [v], w &&& irqHandled ≠ 0
  | .call _ | .disableIrqNosync _ | .enableIrq _ => True

/-- An interrupt goes through the list of its line, which is marked as in progress. -/
structure OnLine (s : IrqSys) (f : IrqFrame) : Prop where
  /-- `IRQ_INPROGRESS` -/
  inprogress : (s.lines f.irq).desc.status &&& irqInprogress ≠ 0
  /-- The list. -/
  action : f.action = (s.lines f.irq).desc.action
  /-- What is left of it. -/
  rest : ∃ called, called ≠ [] ∧ called ++ f.rest = f.action

/-- No two interrupts go through the list of the same line. -/
structure Serialized (s : IrqSys) : Prop where
  /-- Every interrupt is on its line. -/
  onLine : ∀ f ∈ s.frames, s.OnLine f
  /-- The lines are different. -/
  nodup : (s.frames.map IrqFrame.irq).Nodup

variable {s s' : IrqSys} {f : IrqFrame} {fs : List IrqFrame} {irq : ℕ} {v : ULONG}

/-! ### Claiming an interrupt -/

theorem toDoAfterIrq_claimed (irq : ℕ) :
    toDoAfterIrq irq &&& irqStateClaimed ≠ 0 ∧ toDoAfterIrq irq &&& irqStateEoi ≠ 0 := by
  unfold toDoAfterIrq
  refine ⟨fun h => ?_, fun h => ?_⟩
  · have hclaimed := (Flags.or_and_eq_zero.1 (Flags.or_and_eq_zero.1 h).1).2
    exact absurd hclaimed (by decide)
  · have heoi := (Flags.or_and_eq_zero.1 h).2
    exact absurd heoi (by decide)

/-- `LX_IRQEntry` always claims the interrupt. -/
theorem rightlyClaimed_toDoAfterIrq (irq : ℕ) (returned : List ULONG) :
    IrqReturn.RightlyClaimed ⟨toDoAfterIrq irq, returned⟩ ↔
      ∃ v ∈ returned, v &&& irqHandled ≠ 0 :=
  iff_true_left (toDoAfterIrq_claimed irq)

/-- Marking a line as pending does not change whether it is free. -/
theorem enter_and (status : ULONG) :
    (status &&& ~~~(irqReplay ||| irqWaiting) ||| irqPending) &&& (irqDisabled ||| irqInprogress) =
      status &&& (irqDisabled ||| irqInprogress) := by
  have hpending : irqPending &&& (irqDisabled ||| irqInprogress) = 0 := by decide
  rw [BitVec.and_or_distrib_right, hpending, Flags.clear_and_of_disjoint _ (by decide)]
  exact BitVec.or_zero

theorem commit_of_free {l : IrqLine}
    (h : l.desc.status &&& (irqDisabled ||| irqInprogress) = 0) :
    l.commit = (l.desc.action, { l with desc := { l.desc with
      status := (l.desc.status &&& ~~~(irqReplay ||| irqWaiting) ||| irqPending) &&& ~~~irqPending
        ||| irqInprogress } }) := by
  unfold IrqLine.commit
  dsimp only
  rw [if_pos ((enter_and _).trans h)]

theorem commit_of_not_free {l : IrqLine}
    (h : l.desc.status &&& (irqDisabled ||| irqInprogress) ≠ 0) :
    l.commit = ([], { l with desc := { l.desc with
      status := l.desc.status &&& ~~~(irqReplay ||| irqWaiting) ||| irqPending } }) := by
  unfold IrqLine.commit
  dsimp only
  rw [if_neg ((enter_and _).trans_ne h)]

/-- An interrupt for which no handler is called returns at once. -/
theorem arrive_ret (hirq : irq ≤ 15) :
    (s.arrive irq).2 =
      if (s.lines irq).commit.1 = [] then some ⟨toDoAfterIrq irq, []⟩ else none := by
  unfold arrive
  rw [if_pos hirq]
  obtain ⟨action, l⟩ := (s.lines irq).commit
  cases action <;> simp

theorem commit_eq_nil_iff {l : IrqLine} :
    l.commit.1 = [] ↔
      ¬ (l.desc.status &&& (irqDisabled ||| irqInprogress) = 0 ∧ l.desc.action ≠ []) := by
  by_cases hfree : l.desc.status &&& (irqDisabled ||| irqInprogress) = 0
  · rw [commit_of_free hfree]
    simp [hfree]
  · rw [commit_of_not_free hfree]
    exact iff_of_true rfl fun h => hfree h.1

theorem rightlyClaimed_arrive : s.RightlyClaimed (.arrive irq) ↔ s.Handled (.arrive irq) := by
  have hret : s.RightlyClaimed (.arrive irq) ↔ ∀ r ∈ (s.arrive irq).2, r.RightlyClaimed := by
    simp [RightlyClaimed, stepRet]
  rw [hret]
  by_cases hirq : irq ≤ 15
  · rw [arrive_ret hirq, Handled, forall_prop_of_true hirq]
    by_cases hnil : (s.lines irq).commit.1 = []
    · rw [if_pos hnil]
      refine iff_of_false (fun h => ?_) (commit_eq_nil_iff.1 hnil)
      obtain ⟨v, hv, -⟩ := (rightlyClaimed_toDoAfterIrq irq []).1 (h _ rfl)
      exact absurd hv List.not_mem_nil
    · rw [if_neg hnil]
      exact iff_of_true (by simp) (not_not.1 (mt commit_eq_nil_iff.2 hnil))
  · unfold arrive
    rw [if_neg hirq]
    refine iff_of_true (fun r hr => ?_) fun h => absurd h hirq
    cases hr
    simp [IrqReturn.RightlyClaimed]

/-- `LX_IRQEntry` ends when the last handler has returned and the line is not pending. -/
theorem handlerReturns_ret :
    (s.handlerReturns f fs v).2 =
      if f.rest = [] ∧ (s.lines f.irq).desc.status &&& irqPending = 0 then
        some ⟨toDoAfterIrq f.irq, f.returned ++ [v]⟩
      else none := by
  unfold handlerReturns
  dsimp only
  have hstatus (p : Prop) [Decidable p] : (if p then
      { s.lines f.irq with state := { (s.lines f.irq).state with handled := 1 } }
      else s.lines f.irq).desc.status = (s.lines f.irq).desc.status := by
    split_ifs <;> rfl
  cases hrest : f.rest with
  | nil =>
    simp only [hstatus, true_and]
    split_ifs <;> rfl
  | cons a rest => simp

theorem rightlyClaimed_handlerReturns (hs : s.frames = f :: fs) :
    s.RightlyClaimed (.handlerReturns v) ↔ s.Handled (.handlerReturns v) := by
  have hret : s.RightlyClaimed (.handlerReturns v) ↔
      ∀ r ∈ (s.handlerReturns f fs v).2, r.RightlyClaimed := by
    simp [RightlyClaimed, stepRet, hs]
  rw [hret, handlerReturns_ret]
  simp only [Handled, hs, List.head?_cons, Option.mem_some_iff, forall_eq']
  by_cases hlast : f.rest = [] ∧ (s.lines f.irq).desc.status &&& irqPending = 0
  · rw [if_pos hlast, forall_prop_of_true hlast.1, forall_prop_of_true hlast.2]
    simp only [Option.mem_some_iff, forall_eq', rightlyClaimed_toDoAfterIrq]
  · rw [if_neg hlast]
    exact iff_of_true (by simp) fun hrest hpending => absurd ⟨hrest, hpending⟩ hlast

/-- What an `LX_IRQEntry` returns that ends with an action. -/
theorem rightlyClaimed_iff (s : IrqSys) (a : IrqAct) : s.RightlyClaimed a ↔ s.Handled a := by
  cases a with
  | arrive irq => exact rightlyClaimed_arrive
  | handlerReturns v =>
    cases hframes : s.frames with
    | nil => simp [RightlyClaimed, Handled, stepRet, hframes]
    | cons f fs => exact rightlyClaimed_handlerReturns hframes
  | call c => exact iff_of_true (by simp [RightlyClaimed, stepRet]) trivial
  | disableIrqNosync irq => exact iff_of_true (by simp [RightlyClaimed, stepRet]) trivial
  | enableIrq irq => exact iff_of_true (by simp [RightlyClaimed, stepRet]) trivial

/-- **Interrupts are claimed exactly if they are handled**, exactly if every interrupt is handled by
one of its handlers. -/
theorem along_rightlyClaimed_iff (as : List IrqAct) :
    machine.Along RightlyClaimed machine.init as ↔ machine.Along Handled machine.init as :=
  Machine.along_congr rightlyClaimed_iff machine.init as

/-- An interrupt of another driver's device on line 9, which a handler does not handle, is
claimed. -/
theorem not_along_rightlyClaimed :
    ¬ machine.Along RightlyClaimed machine.init
      [.call (.requestIrq 9 ⟨1, saShirq, 1⟩ true 0), .arrive 9, .handlerReturns 0] := by
  intro h
  have hcall := h.2 _ rfl
  have harrive := hcall.2 _ rfl
  have hclaimed := harrive.1 _ rfl _ rfl
  obtain ⟨v, hv, hne⟩ := hclaimed.1 (toDoAfterIrq_claimed 9)
  have hnone : v = 0 := List.mem_singleton.1 hv
  subst hnone
  exact hne rfl

/-! ### One interrupt at a time -/

theorem disableIrqNosync_inprogress (l : IrqLine) :
    l.disableIrqNosync.desc.status &&& irqInprogress = l.desc.status &&& irqInprogress := by
  unfold IrqLine.disableIrqNosync
  dsimp only
  split_ifs
  · rw [BitVec.and_or_distrib_right, show irqDisabled &&& irqInprogress = 0 by decide]
    exact BitVec.or_zero
  · rfl

theorem enableIrq_inprogress (l : IrqLine) :
    l.enableIrq.desc.status &&& irqInprogress = l.desc.status &&& irqInprogress := by
  have hclear : l.desc.status &&& ~~~irqDisabled &&& irqInprogress =
      l.desc.status &&& irqInprogress := Flags.clear_and_of_disjoint _ (by decide)
  unfold IrqLine.enableIrq
  dsimp only
  split_ifs
  · rfl
  · dsimp only
    rw [BitVec.and_or_distrib_right, show irqReplay &&& irqInprogress = 0 by decide, hclear]
    exact BitVec.or_zero
  · exact hclear
  · rfl

/-- A line on which an interrupt still is, with a longer list perhaps. -/
theorem OnLine.congr (h : s.OnLine f)
    (hstatus : (s'.lines f.irq).desc.status &&& irqInprogress =
      (s.lines f.irq).desc.status &&& irqInprogress)
    (haction : (s'.lines f.irq).desc.action = (s.lines f.irq).desc.action) : s'.OnLine f :=
  ⟨hstatus ▸ h.inprogress, haction ▸ h.action, h.rest⟩

theorem lines_setLine_self (s : IrqSys) (irq : ℕ) (l : IrqLine) : (s.setLine irq l).lines irq = l :=
  Function.update_self ..

theorem lines_setLine_of_ne (s : IrqSys) {i irq : ℕ} (h : i ≠ irq) (l : IrqLine) :
    (s.setLine irq l).lines i = s.lines i :=
  Function.update_of_ne h ..

/-- Changing a line keeps the interrupts on it, if it stays in progress with the same list. -/
theorem Serialized.setLine (h : s.Serialized) {l : IrqLine}
    (hstatus : l.desc.status &&& irqInprogress = (s.lines irq).desc.status &&& irqInprogress)
    (haction : l.desc.action = (s.lines irq).desc.action) : (s.setLine irq l).Serialized := by
  refine ⟨fun f hf => ?_, h.nodup⟩
  have hline := h.onLine f hf
  by_cases hirq : f.irq = irq
  · subst hirq
    exact hline.congr (by rw [lines_setLine_self, hstatus]) (by rw [lines_setLine_self, haction])
  · exact hline.congr (by rw [lines_setLine_of_ne _ hirq]) (by rw [lines_setLine_of_ne _ hirq])

/-- An interrupt on another line. -/
theorem OnLine.setLine_of_ne (h : s.OnLine f) (hne : f.irq ≠ irq) (l : IrqLine) :
    (s.setLine irq l).OnLine f :=
  h.congr (by rw [lines_setLine_of_ne _ hne]) (by rw [lines_setLine_of_ne _ hne])

/-- The beginning of `do_IRQ` leaves a line that is not free in progress if it was. -/
theorem serialized_arrive (h : s.Serialized) (irq : ℕ) : (s.arrive irq).1.Serialized := by
  unfold arrive
  by_cases hirq : irq ≤ 15
  · rw [if_pos hirq]
    by_cases hfree : (s.lines irq).desc.status &&& (irqDisabled ||| irqInprogress) = 0
    · -- No interrupt is on the line.
      have hnone : ∀ f ∈ s.frames, f.irq ≠ irq := by
        rintro f hf rfl
        exact (h.onLine f hf).inprogress (Flags.and_or_eq_zero.1 hfree).2
      rw [commit_of_free hfree]
      generalize hl : (⟨⟨_, _, _, _⟩, _, _⟩ : IrqLine) = l
      have hstatus : l.desc.status &&& irqInprogress ≠ 0 := by
        rw [← hl]
        exact fun h0 => absurd (Flags.or_and_eq_zero.1 h0).2 (by decide)
      have haction : l.desc.action = (s.lines irq).desc.action := by rw [← hl]
      cases hlist : (s.lines irq).desc.action with
      | nil => exact ⟨fun f hf => (h.onLine f hf).setLine_of_ne (hnone f hf) l, h.nodup⟩
      | cons a rest =>
        refine ⟨List.forall_mem_cons.2 ⟨?_, fun f hf => ?_⟩, List.nodup_cons.2 ⟨?_, h.nodup⟩⟩
        · refine ⟨?_, ?_, [a], List.cons_ne_nil _ _, rfl⟩
          · dsimp only
            rwa [lines_setLine_self]
          · dsimp only
            rw [lines_setLine_self, haction, hlist]
        · exact ((h.onLine f hf).setLine_of_ne (hnone f hf) l).congr rfl rfl
        · intro hmem
          obtain ⟨f, hf, heq⟩ := List.mem_map.1 hmem
          exact hnone f hf heq
    · rw [commit_of_not_free hfree]
      refine h.setLine ?_ rfl
      dsimp only
      rw [BitVec.and_or_distrib_right, show irqPending &&& irqInprogress = 0 by decide,
        Flags.clear_and_of_disjoint _ (by decide)]
      exact BitVec.or_zero
  · rw [if_neg hirq]
    exact h

/-- The other interrupts are on other lines. -/
theorem Serialized.ne_of_mem (h : s.Serialized) (hs : s.frames = f :: fs) {g : IrqFrame}
    (hg : g ∈ fs) : g.irq ≠ f.irq := by
  have hnodup := h.nodup
  rw [hs, List.map_cons, List.nodup_cons] at hnodup
  exact fun heq => hnodup.1 (heq ▸ List.mem_map_of_mem hg)

theorem serialized_handlerReturns (h : s.Serialized) (hs : s.frames = f :: fs) (v : ULONG) :
    (s.handlerReturns f fs v).1.Serialized := by
  have hf : s.OnLine f := h.onLine f (hs ▸ List.mem_cons_self)
  have hnodup := h.nodup
  rw [hs, List.map_cons] at hnodup
  obtain ⟨called, hne, hcalled⟩ := hf.rest
  unfold handlerReturns
  dsimp only
  generalize hl : (if (f.retval ||| v) &&& irqHandled ≠ 0 ∧ f.lxIrqHandled = false then _
    else s.lines f.irq) = l
  have hdesc : l.desc = (s.lines f.irq).desc := by
    subst hl
    split_ifs <;> rfl
  have hothers : ∀ l', ∀ g ∈ fs, (s.setLine f.irq l').OnLine g := fun l' g hg =>
    (h.onLine g (hs ▸ List.mem_cons_of_mem _ hg)).setLine_of_ne (h.ne_of_mem hs hg) l'
  cases hrest : f.rest with
  | cons a rest =>
    refine ⟨List.forall_mem_cons.2 ⟨?_, fun g hg => (hothers l g hg).congr rfl rfl⟩, hnodup⟩
    refine ⟨?_, ?_, called ++ [a], by simp, ?_⟩
    · dsimp only
      rw [lines_setLine_self, hdesc]
      exact hf.inprogress
    · dsimp only
      rw [lines_setLine_self, hdesc]
      exact hf.action
    · rw [← hcalled, hrest, List.append_assoc]
      rfl
  | nil =>
    dsimp only
    split_ifs with hpending
    · exact ⟨fun g hg => (hothers _ g hg).congr rfl rfl, (List.nodup_cons.1 hnodup).2⟩
    · refine ⟨List.forall_mem_cons.2 ⟨?_, fun g hg => (hothers _ g hg).congr rfl rfl⟩, hnodup⟩
      refine ⟨?_, ?_, ?_⟩
      · dsimp only
        rw [lines_setLine_self, hdesc]
        dsimp only
        rw [Flags.clear_and_of_disjoint _ (by decide)]
        exact hf.inprogress
      · dsimp only
        rw [lines_setLine_self, hdesc]
        exact hf.action
      · obtain ⟨a, tail, haction⟩ : ∃ a tail, f.action = a :: tail := by
          rw [← hcalled]
          exact List.exists_cons_of_ne_nil fun h0 => hne (List.append_eq_nil_iff.1 h0).1
        dsimp only
        rw [haction]
        exact ⟨[a], List.cons_ne_nil _ _, rfl⟩

/-- A line in progress keeps its status, and its list at most gets longer. -/
theorem exec_inprogress {l : IrqLine} {c : IrqCall} (hw : ¬ Waits l c)
    (hinp : l.desc.status &&& irqInprogress ≠ 0) (hne : l.desc.action ≠ []) :
    (c.exec l).2.desc.status = l.desc.status ∧
      ∃ more, (c.exec l).2.desc.action = l.desc.action ++ more := by
  have hsetup (irq : ℕ) (new : Irqaction) (rc : ℤ) :
      (l.setupIrq irq new rc).2.desc.status = l.desc.status ∧
        ∃ more, (l.setupIrq irq new rc).2.desc.action = l.desc.action ++ more := by
    obtain ⟨old, rest, haction⟩ := List.exists_cons_of_ne_nil hne
    unfold IrqLine.setupIrq
    rw [haction]
    dsimp only
    split_ifs
    · exact ⟨rfl, [], by rw [haction, List.append_nil]⟩
    · exact ⟨rfl, [], by rw [haction, List.append_nil]⟩
    · exact ⟨rfl, [], by rw [haction, List.append_nil]⟩
    all_goals
      dsimp only
      rw [IrqLine.lxRequestIrq_desc]
      exact ⟨rfl, [new], rfl⟩
  have hsame : l.desc.status = l.desc.status ∧ ∃ more, l.desc.action = l.desc.action ++ more :=
    ⟨rfl, [], (List.append_nil _).symm⟩
  cases c with
  | requestIrq irq action alloc rc =>
    unfold IrqCall.exec IrqLine.requestIrq
    dsimp only
    split_ifs
    · exact hsame
    · exact hsame
    · exact hsame
    · exact hsetup irq action rc
  | setupIrq irq new rc => exact hsetup irq new rc
  | freeIrq irq devId =>
    unfold IrqCall.exec IrqLine.freeIrq
    dsimp only
    by_cases hirq : nrIrqs ≤ irq
    · rw [if_pos hirq]
      exact hsame
    · rw [if_neg hirq, if_neg fun hfound => hw ⟨Nat.lt_of_not_le hirq, hfound, hinp⟩]
      exact hsame

theorem serialized_call {c : IrqCall} (h : s.Serialized) (hs : s.call c = some s') :
    s'.Serialized := by
  unfold call at hs
  split_ifs at hs with hw
  obtain ⟨lines, hlines, heq⟩ := Option.map_eq_some_iff.1 hs
  dsimp only at heq
  generalize hmore :
    (lines c.irq).desc.action.drop (s.lines c.irq).desc.action.length = more at heq
  have hirq : ∀ f : IrqFrame, (if f.irq = c.irq then
      { f with action := f.action ++ more, rest := f.rest ++ more } else f).irq = f.irq := by
    intro f
    split_ifs <;> rfl
  subst heq
  refine ⟨fun g hg => ?_, ?_⟩
  · obtain ⟨f, hf, rfl⟩ := List.mem_map.1 hg
    have hline := h.onLine f hf
    by_cases hc : f.irq = c.irq
    · rw [if_pos hc]
      have hinp := hline.inprogress
      obtain ⟨called, hne, hcalled⟩ := hline.rest
      have haction := hline.action
      rw [hc] at hinp haction
      have hnil : (s.lines c.irq).desc.action ≠ [] := by
        rw [← haction, ← hcalled]
        exact fun h0 => hne (List.append_eq_nil_iff.1 h0).1
      obtain ⟨hstatus, more', hlonger⟩ := exec_inprogress hw hinp hnil
      rw [← IrqLines.step_self hlines] at hstatus hlonger
      have hsame : more = more' := by rw [← hmore, hlonger, List.drop_left]
      refine ⟨?_, ?_, called, hne, ?_⟩
      · dsimp only
        rw [hc, hstatus]
        exact hinp
      · dsimp only
        rw [hc, hlonger, haction, hsame]
      · dsimp only
        rw [← List.append_assoc, hcalled]
    · rw [if_neg hc]
      have hsame : lines f.irq = s.lines f.irq := IrqLines.step_of_ne hlines (Ne.symm hc)
      exact hline.congr (congrArg (fun l => l.desc.status &&& irqInprogress) hsame)
        (congrArg (fun l => l.desc.action) hsame)
  · rw [List.map_map]
    have hmap : IrqFrame.irq ∘ (fun f => if f.irq = c.irq then
        { f with action := f.action ++ more, rest := f.rest ++ more } else f) = IrqFrame.irq :=
      funext hirq
    rw [hmap]
    exact h.nodup

theorem serialized_step {a : IrqAct} (h : s.Serialized) (hs : machine.step s a = some s') :
    s'.Serialized := by
  obtain ⟨next, hnext, rfl⟩ := Option.map_eq_some_iff.1 hs
  cases a with
  | arrive irq =>
    cases hnext
    exact serialized_arrive h irq
  | handlerReturns v =>
    cases hframes : s.frames with
    | nil => simp [stepRet, hframes] at hnext
    | cons f fs =>
      simp only [stepRet, hframes, Option.some.injEq] at hnext
      subst hnext
      exact serialized_handlerReturns h hframes v
  | call c =>
    obtain ⟨s₁, hs₁, rfl⟩ := Option.map_eq_some_iff.1 hnext
    exact serialized_call h hs₁
  | disableIrqNosync irq =>
    cases hnext
    exact h.setLine (disableIrqNosync_inprogress _) rfl
  | enableIrq irq =>
    cases hnext
    refine h.setLine (enableIrq_inprogress _) ?_
    unfold IrqLine.enableIrq
    dsimp only
    split_ifs <;> rfl

/-- **The handlers of a line are called for one interrupt at a time**, in every run. -/
theorem always_serialized (as : List IrqAct) : machine.Always Serialized machine.init as :=
  Machine.always_of_along (G := Machine.anyStep) (fun _ h => h)
    (fun _ _ _ h _ hs => serialized_step h hs) ⟨by simp [machine], by simp [machine]⟩
    (Machine.along_anyStep _ _)

end IrqSys

end LxApi32
