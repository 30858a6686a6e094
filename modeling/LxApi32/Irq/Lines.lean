import LxApi32.Daemon.Packet
import LxApi32.Kernel.Errno
import LxApi32.Lib.Flags
import LxApi32.Lib.Machine
import Mathlib.Logic.Function.Basic

/-!
# Interrupt lines

`request_irq` and `setup_irq` link an action to the list of the line in `irq_desc`, and `free_irq`
unlinks one.  With every action that is linked `LX_RequestIrq` counts a use of the line in
`irq_states`, and registers the line with OS/2 for the first use; `LX_FreeIrq` takes a use away, and
gives the line back with the last one.

`setup_irq` does not look at what `LX_RequestIrq` returns, and it accepts an action for line 2,
where the second interrupt controller is, without doing anything.

* `IrqLines.always_balanced_iff` : the uses of a line are its actions, and the line is registered
  exactly while there are any, exactly if OS/2 registers the line whenever it is asked to.
* `IrqLines.balanced_and_linked` : under that condition an action that was accepted is linked and
  its line is registered, but for line 2.

A line is modelled with all that the arrays have for it.
-/

namespace LxApi32

/-- `NR_IRQS` -/
def nrIrqs : ℕ := 224

/-- `SA_SHIRQ` -/
def saShirq : ULONG := 0x04000000

/-- `IRQ_INPROGRESS` -/
def irqInprogress : ULONG := 1

/-- `IRQ_DISABLED` -/
def irqDisabled : ULONG := 2

/-- `IRQ_PENDING` -/
def irqPending : ULONG := 4

/-- `IRQ_REPLAY` -/
def irqReplay : ULONG := 8

/-- `IRQ_AUTODETECT` -/
def irqAutodetect : ULONG := 16

/-- `IRQ_WAITING` -/
def irqWaiting : ULONG := 32

/-- `struct irqaction` -/
structure Irqaction where
  /-- `handler` -/
  handler : ULONG
  /-- `flags` -/
  flags : ULONG
  /-- `dev_id` -/
  devId : ULONG
  deriving DecidableEq, Repr

/-- `irq_desc_t` -/
structure IrqDesc where
  /-- `status` -/
  status : ULONG
  /-- `handler == &no_irq_type` -/
  noIrqType : Bool
  /-- The list `action`. -/
  action : List Irqaction
  /-- `depth` -/
  depth : ULONG
  deriving DecidableEq, Repr

/-- `struct lx_irq_state` -/
structure LxIrqState where
  /-- `use_count` -/
  useCount : ℤ
  /-- `handled` -/
  handled : ℤ
  deriving DecidableEq, Repr

/-- An interrupt line. -/
structure IrqLine where
  /-- Its entry in `irq_desc`. -/
  desc : IrqDesc
  /-- Its entry in `irq_states`, which has the lines up to 15. -/
  state : LxIrqState
  /-- The flags with which OS/2 has registered the line. -/
  irqSet : Option ULONG
  deriving DecidableEq, Repr

namespace IrqLine

/-- `LX_RequestIrq`; `rc` is what `DevIRQSet` returns, or `DevSetTimer` for line 0. -/
def lxRequestIrq (l : IrqLine) (irq : ℕ) (flags : ULONG) (rc : ℤ) : ℤ × IrqLine :=
  if irq ≤ 15 then
    let (rc, l) :=
      if l.state.useCount = 0 then (rc, if rc = 0 then { l with irqSet := some flags } else l)
      else (0, l)
    if rc = 0 then (rc, { l with state := { l.state with useCount := l.state.useCount + 1 } })
    else (rc, l)
  else (-1, l)

/-- `LX_FreeIrq` -/
def lxFreeIrq (l : IrqLine) (irq : ℕ) : IrqLine :=
  if 0 < irq ∧ irq ≤ 15 then
    let l := { l with state := { l.state with useCount := l.state.useCount - 1 } }
    -- `DevIRQClear`
    if l.state.useCount = 0 then { l with irqSet := none } else l
  else if irq = 0 then { l with state := { l.state with useCount := 1 } }
  else l

/-- `setup_irq` -/
def setupIrq (l : IrqLine) (irq : ℕ) (new : Irqaction) (rc : ℤ) : ℤ × IrqLine :=
  if irq = 2 then (0, l)
  else if l.desc.noIrqType then (-errENOSYS, l)
  else
    let linked := { l.desc with action := l.desc.action ++ [new] }
    let flags := if new.flags &&& saShirq ≠ 0 then 1 else 0
    match l.desc.action with
    | old :: _ =>
      if old.flags &&& new.flags &&& saShirq = 0 then (-errEBUSY, l)
      else (0, (lxRequestIrq { l with desc := linked } irq flags rc).2)
    | [] =>
      let desc := { linked with
        depth := 0
        status := linked.status &&& ~~~(irqDisabled ||| irqAutodetect ||| irqWaiting |||
          irqInprogress) }
      (0, (lxRequestIrq { l with desc } irq flags rc).2)

/-- `request_irq`; `alloc` tells whether `kmalloc` returns memory. -/
def requestIrq (l : IrqLine) (irq : ℕ) (action : Irqaction) (alloc : Bool) (rc : ℤ) : ℤ × IrqLine :=
  if nrIrqs ≤ irq then (-errEINVAL, l)
  else if action.handler = 0 then (-errEINVAL, l)
  else if alloc = false then (-errENOMEM, l)
  else l.setupIrq irq action rc

/-- `free_irq`, without waiting for handlers that are running. -/
def freeIrq (l : IrqLine) (irq : ℕ) (devId : ULONG) : IrqLine :=
  if nrIrqs ≤ irq then l
  else if ∃ a ∈ l.desc.action, a.devId = devId then
    let l := l.lxFreeIrq irq
    let action := l.desc.action.eraseP fun a => a.devId = devId
    { l with desc := { l.desc with
        action
        status := if action = [] then l.desc.status ||| irqDisabled else l.desc.status } }
  else l

end IrqLine

/-- A call about an interrupt line. -/
inductive IrqCall
  /-- `request_irq` -/
  | requestIrq (irq : ℕ) (action : Irqaction) (alloc : Bool) (rc : ℤ)
  /-- `setup_irq` -/
  | setupIrq (irq : ℕ) (new : Irqaction) (rc : ℤ)
  /-- `free_irq` -/
  | freeIrq (irq : ℕ) (devId : ULONG)
  deriving DecidableEq, Repr

/-- The line that a call is about. -/
def IrqCall.irq : IrqCall → ℕ
  | requestIrq irq .. | setupIrq irq .. | freeIrq irq _ => irq

/-- What a call returns, 0 for `free_irq`, and the line it leaves. -/
def IrqCall.exec (l : IrqLine) : IrqCall → ℤ × IrqLine
  | requestIrq irq action alloc rc => l.requestIrq irq action alloc rc
  | setupIrq irq new rc => l.setupIrq irq new rc
  | freeIrq irq devId => (0, l.freeIrq irq devId)

/-- The action that is to be linked. -/
def IrqCall.new : IrqCall → Option Irqaction
  | requestIrq _ action .. => some action
  | setupIrq _ new _ => some new
  | freeIrq .. => none

namespace IrqLine

/-- The uses of the line are its actions, and it is registered exactly while there are any. -/
def Balanced (l : IrqLine) : Prop :=
  l.state.useCount = l.desc.action.length ∧ (l.irqSet.isSome ↔ 0 < l.desc.action.length)

/-- `setup_irq` links the action. -/
def Accepts (l : IrqLine) (irq : ℕ) (new : Irqaction) : Prop :=
  irq ≠ 2 ∧ l.desc.noIrqType = false ∧
    ∀ old ∈ l.desc.action.head?, old.flags &&& new.flags &&& saShirq ≠ 0

end IrqLine

/-- The call links an action. -/
def IrqCall.Links (l : IrqLine) : IrqCall → Prop
  | requestIrq irq action alloc _ =>
    irq < nrIrqs ∧ action.handler ≠ 0 ∧ alloc = true ∧ l.Accepts irq action
  | setupIrq irq new _ => l.Accepts irq new
  | freeIrq .. => False

/-- What `DevIRQSet` returns, if the call asks for it. -/
def IrqCall.rc : IrqCall → ℤ
  | requestIrq _ _ _ rc | setupIrq _ _ rc => rc
  | freeIrq .. => 0

/-! ### The lines -/

/-- The lines. -/
abbrev IrqLines := ℕ → IrqLine

namespace IrqLines

/-- `init_ISA_irqs` -/
def initISAIrqs : IrqLines := fun i => ⟨⟨irqDisabled, decide (16 ≤ i), [], 1⟩, ⟨0, 0⟩, none⟩

/-- The step function; `setup_irq` has no check of its own for the number of the line. -/
def step (s : IrqLines) (c : IrqCall) : Option IrqLines :=
  if c matches .setupIrq .. ∧ nrIrqs ≤ c.irq then none
  else some (Function.update s c.irq (c.exec (s c.irq)).2)

/-- The machine of the lines. -/
def machine : Machine IrqLines IrqCall := ⟨initISAIrqs, step⟩

/-- OS/2 registers the line when the first action is linked. -/
def Registers (irq : ℕ) (s : IrqLines) (c : IrqCall) : Prop :=
  c.irq = irq → c.Links (s irq) → (s irq).state.useCount = 0 → c.rc = 0

/-- A request that succeeds has linked its action, and the line is registered; one for line 2 has
done nothing. -/
def Linked (irq : ℕ) (s : IrqLines) (c : IrqCall) : Prop :=
  c.irq = irq → ∀ new ∈ c.new, (c.exec (s irq)).1 = 0 →
    if irq = 2 then (c.exec (s irq)).2 = s irq
    else new ∈ (c.exec (s irq)).2.desc.action ∧ (c.exec (s irq)).2.irqSet.isSome

end IrqLines

/-! ### What one call does to its line -/

namespace IrqLine

variable {l : IrqLine} {irq : ℕ} {new : Irqaction} {flags : ULONG} {rc : ℤ}

/-- `LX_RequestIrq` leaves the action list alone, and counts, unless OS/2 refuses the line. -/
theorem lxRequestIrq_eq (l : IrqLine) (hirq : irq ≤ 15) (flags : ULONG) (rc : ℤ) :
    (l.lxRequestIrq irq flags rc).2 =
      if l.state.useCount = 0 ∧ rc ≠ 0 then l
      else { l with
        state := { l.state with useCount := l.state.useCount + 1 }
        irqSet := if l.state.useCount = 0 then some flags else l.irqSet } := by
  unfold lxRequestIrq
  rw [if_pos hirq]
  by_cases hcount : l.state.useCount = 0
  · by_cases hrc : rc = 0 <;> simp [hcount, hrc]
  · simp [hcount]

theorem lxRequestIrq_desc (l : IrqLine) (irq : ℕ) (flags : ULONG) (rc : ℤ) :
    (l.lxRequestIrq irq flags rc).2.desc = l.desc := by
  unfold lxRequestIrq
  dsimp only
  split_ifs <;> rfl

/-- **An action that is linked** is counted with the others, if OS/2 does not refuse the line. -/
theorem Balanced.link (h : l.Balanced) (hirq : irq ≤ 15) (hrc : l.state.useCount = 0 → rc = 0)
    {desc : IrqDesc} (hdesc : desc.action = l.desc.action ++ [new]) (flags : ULONG) :
    (lxRequestIrq { l with desc } irq flags rc).2.Balanced := by
  have hset : 0 < l.desc.action.length → l.irqSet.isSome := h.2.2
  rw [lxRequestIrq_eq _ hirq, if_neg fun hfail => hfail.2 (hrc hfail.1)]
  refine ⟨?_, iff_of_true ?_ ?_⟩
  · simp [hdesc, h.1]
  · have hcount := h.1
    dsimp only
    split_ifs with hzero
    · rfl
    · exact hset (by omega)
  · simp [hdesc]

/-- If OS/2 refuses the line, the action is linked and not counted. -/
theorem Balanced.not_link (h : l.Balanced) (hirq : irq ≤ 15) (hzero : l.state.useCount = 0)
    (hrc : rc ≠ 0) {desc : IrqDesc} (hdesc : desc.action = l.desc.action ++ [new])
    (flags : ULONG) : ¬ (lxRequestIrq { l with desc } irq flags rc).2.Balanced := by
  rw [lxRequestIrq_eq _ hirq, if_pos ⟨hzero, hrc⟩]
  intro h'
  have hcount : l.state.useCount = desc.action.length := h'.1
  rw [hdesc, List.length_append, List.length_singleton] at hcount
  have := h.1
  omega

/-- `setup_irq` for an action that it accepts. -/
theorem setupIrq_accepts (rc : ℤ) (h : l.Accepts irq new) : ∃ desc flags,
    desc.action = l.desc.action ++ [new] ∧
      l.setupIrq irq new rc = (0, (lxRequestIrq { l with desc } irq flags rc).2) := by
  obtain ⟨hirq, htype, hshared⟩ := h
  unfold setupIrq
  rw [if_neg hirq, htype, if_neg Bool.false_ne_true]
  cases haction : l.desc.action with
  | nil =>
    exact ⟨_, _, by simp, rfl⟩
  | cons old rest =>
    have hold := hshared old (by rw [haction]; rfl)
    dsimp only
    rw [if_neg hold]
    exact ⟨_, _, by simp, rfl⟩

/-- It refuses the others, or does nothing for line 2. -/
theorem setupIrq_of_not_accepts (h : ¬ l.Accepts irq new) :
    (l.setupIrq irq new rc).2 = l ∧ ((l.setupIrq irq new rc).1 = 0 → irq = 2) := by
  unfold setupIrq
  by_cases hirq : irq = 2
  · rw [if_pos hirq]
    exact ⟨rfl, fun _ => hirq⟩
  rw [if_neg hirq]
  by_cases htype : l.desc.noIrqType = true
  · rw [if_pos htype]
    exact ⟨rfl, fun h0 => absurd h0 (neg_ne_zero.2 (by decide))⟩
  rw [if_neg htype]
  have hshared : ¬ ∀ old ∈ l.desc.action.head?, old.flags &&& new.flags &&& saShirq ≠ 0 :=
    fun hall => h ⟨hirq, Bool.eq_false_of_not_eq_true htype, hall⟩
  cases haction : l.desc.action with
  | nil => exact absurd (by simp [haction]) hshared
  | cons old rest =>
    have hold : old.flags &&& new.flags &&& saShirq = 0 := by
      by_contra hne
      exact hshared fun o ho => by
        rw [haction] at ho
        cases ho
        exact hne
    dsimp only
    rw [if_pos hold]
    exact ⟨rfl, fun h0 => absurd h0 (neg_ne_zero.2 (by decide))⟩

/-- **`free_irq` keeps the balance.** -/
theorem Balanced.freeIrq (h : l.Balanced) (hpos : 0 < irq) (hirq : irq ≤ 15) (devId : ULONG) :
    (l.freeIrq irq devId).Balanced := by
  unfold IrqLine.freeIrq
  rw [if_neg (by unfold nrIrqs; omega)]
  split_ifs with hfound
  · obtain ⟨a, ha, hdev⟩ := hfound
    have hlen : (l.desc.action.eraseP fun a => a.devId = devId).length =
        l.desc.action.length - 1 := List.length_eraseP_of_mem ha (by simpa using hdev)
    have hsome : 0 < l.desc.action.length := List.length_pos_of_mem ha
    have hset : l.irqSet.isSome := h.2.2 hsome
    have hcount := h.1
    unfold lxFreeIrq
    rw [if_pos ⟨hpos, hirq⟩]
    dsimp only
    by_cases hzero : l.state.useCount - 1 = 0
    · rw [if_pos hzero]
      refine ⟨?_, iff_of_false (by simp) ?_⟩
      · dsimp only
        rw [hlen]
        omega
      · dsimp only
        rw [hlen]
        omega
    · rw [if_neg hzero]
      refine ⟨?_, iff_of_true hset ?_⟩
      · dsimp only
        rw [hlen]
        omega
      · dsimp only
        rw [hlen]
        omega
  · exact h

end IrqLine

namespace IrqCall

variable {l : IrqLine} {c : IrqCall}

/-- A call that links its action. -/
theorem exec_links (h : c.Links l) : ∃ new desc flags, c.new = some new ∧
    desc.action = l.desc.action ++ [new] ∧
      c.exec l = (0, (IrqLine.lxRequestIrq { l with desc } c.irq flags c.rc).2) := by
  cases c with
  | requestIrq irq action alloc rc =>
    obtain ⟨hirq, hhandler, halloc, haccepts⟩ := h
    obtain ⟨desc, flags, hdesc, heq⟩ := IrqLine.setupIrq_accepts rc haccepts
    refine ⟨action, desc, flags, rfl, hdesc, ?_⟩
    rw [exec, IrqLine.requestIrq, if_neg (Nat.not_le_of_lt hirq), if_neg hhandler,
      if_neg (by simp [halloc])]
    exact heq
  | setupIrq irq new rc =>
    obtain ⟨desc, flags, hdesc, heq⟩ := IrqLine.setupIrq_accepts rc h
    exact ⟨new, desc, flags, rfl, hdesc, heq⟩
  | freeIrq irq devId => exact h.elim

/-- A call that should link its action and does not. -/
theorem exec_of_not_links (h : ¬ c.Links l) {new : Irqaction} (hnew : c.new = some new) :
    (c.exec l).2 = l ∧ ((c.exec l).1 = 0 → c.irq = 2) := by
  cases c with
  | requestIrq irq action alloc rc =>
    unfold exec IrqLine.requestIrq
    dsimp only
    split_ifs with hirq hhandler halloc
    · exact ⟨rfl, fun h0 => absurd h0 (neg_ne_zero.2 (by decide))⟩
    · exact ⟨rfl, fun h0 => absurd h0 (neg_ne_zero.2 (by decide))⟩
    · exact ⟨rfl, fun h0 => absurd h0 (neg_ne_zero.2 (by decide))⟩
    · exact IrqLine.setupIrq_of_not_accepts fun haccepts =>
        h ⟨Nat.lt_of_not_le hirq, hhandler, by simpa using halloc, haccepts⟩
  | setupIrq irq new rc => exact IrqLine.setupIrq_of_not_accepts h
  | freeIrq irq devId => cases hnew

/-- **What a call does to its line.** -/
theorem balanced_exec (h : l.Balanced) (hpos : 0 < c.irq) (hirq : c.irq ≤ 15)
    (hrc : c.Links l → l.state.useCount = 0 → c.rc = 0) : (c.exec l).2.Balanced := by
  by_cases hlinks : c.Links l
  · obtain ⟨new, desc, flags, -, hdesc, heq⟩ := exec_links hlinks
    rw [heq]
    exact h.link hirq (hrc hlinks) hdesc flags
  cases c with
  | requestIrq irq action alloc rc =>
    rw [(exec_of_not_links hlinks rfl).1]
    exact h
  | setupIrq irq new rc =>
    rw [(exec_of_not_links hlinks rfl).1]
    exact h
  | freeIrq irq devId => exact h.freeIrq hpos hirq devId

end IrqCall

/-! ### Runs -/

namespace IrqLines

variable {irq : ℕ} {s s' : IrqLines} {c : IrqCall}

theorem step_eq (h : machine.step s c = some s') :
    s' = Function.update s c.irq (c.exec (s c.irq)).2 := by
  have hstep : step s c = some s' := h
  unfold step at hstep
  split_ifs at hstep
  exact (Option.some.inj hstep).symm

/-- A call about another line. -/
theorem step_of_ne (h : machine.step s c = some s') (hne : c.irq ≠ irq) : s' irq = s irq := by
  rw [step_eq h]
  exact Function.update_of_ne hne.symm ..

theorem step_self (h : machine.step s c = some s') : s' c.irq = (c.exec (s c.irq)).2 := by
  rw [step_eq h]
  exact Function.update_self ..

/-- The calls keep the balance of a line that OS/2 registers. -/
theorem balanced_step (hpos : 0 < irq) (hirq : irq ≤ 15) (h : (s irq).Balanced)
    (hreg : Registers irq s c) (hs : machine.step s c = some s') : (s' irq).Balanced := by
  by_cases hline : c.irq = irq
  · subst hline
    rw [step_self hs]
    exact IrqCall.balanced_exec h hpos hirq (hreg rfl)
  · rw [step_of_ne hs hline]
    exact h

/-- A line that OS/2 has refused is not balanced. -/
theorem registers_of_balanced (hirq : irq ≤ 15) (h : (s irq).Balanced)
    (hs : machine.step s c = some s') (h' : (s' irq).Balanced) : Registers irq s c := by
  intro hline hlinks hzero
  subst hline
  by_contra hrc
  obtain ⟨new, desc, flags, -, hdesc, heq⟩ := IrqCall.exec_links hlinks
  rw [step_self hs, heq] at h'
  exact h.not_link hirq hzero hrc hdesc flags h'

theorem linked_of_registers (hirq : irq ≤ 15) (h : (s irq).Balanced) (hreg : Registers irq s c) :
    Linked irq s c := by
  intro hline new hnew hret
  subst hline
  by_cases hlinks : c.Links (s c.irq)
  · obtain ⟨new', desc, flags, hnew', hdesc, heq⟩ := IrqCall.exec_links hlinks
    have hline2 : c.irq ≠ 2 := by
      cases c with
      | requestIrq => exact hlinks.2.2.2.1
      | setupIrq => exact hlinks.1
      | freeIrq => exact hlinks.elim
    have hbal := h.link hirq (hreg rfl hlinks) hdesc flags
    have hmem : new ∈
        (IrqLine.lxRequestIrq { s c.irq with desc } c.irq flags c.rc).2.desc.action := by
      rw [IrqLine.lxRequestIrq_desc, hdesc, Option.some.inj (hnew.symm.trans hnew')]
      simp
    rw [if_neg hline2, heq]
    exact ⟨hmem, hbal.2.2 (List.length_pos_of_mem hmem)⟩
  · obtain ⟨hsame, htwo⟩ := IrqCall.exec_of_not_links hlinks hnew
    rw [if_pos (htwo hret)]
    exact hsame

theorem balanced_initISAIrqs (irq : ℕ) : (initISAIrqs irq).Balanced :=
  ⟨rfl, iff_of_false Bool.false_ne_true (Nat.lt_irrefl 0)⟩

/-- The uses of a line are its actions, and the line is registered exactly while there are any,
exactly if OS/2 registers the line whenever it is asked to. -/
theorem always_balanced_iff (hpos : 0 < irq) (hirq : irq ≤ 15) {cs : List IrqCall}
    (h : machine.exec machine.init cs = some s') :
    machine.Always (fun s => (s irq).Balanced) machine.init cs ↔
      machine.Along (Registers irq) machine.init cs :=
  Machine.always_iff_along (fun _ hbal => hbal)
    (fun _ _ _ hbal hreg hs => balanced_step hpos hirq hbal hreg hs)
    (fun _ _ _ hbal hs hbal' => registers_of_balanced hirq hbal hs hbal')
    (balanced_initISAIrqs irq) h

/-- **Counts match the actions** of a line that OS/2 does not refuse, and actions that are accepted
are linked, but for line 2. -/
theorem balanced_and_linked (hpos : 0 < irq) (hirq : irq ≤ 15) {cs : List IrqCall}
    (h : machine.Along (Registers irq) machine.init cs) :
    machine.Always (fun s => (s irq).Balanced) machine.init cs ∧
      machine.Along (Linked irq) machine.init cs := by
  have hstep : ∀ s c s', (s irq).Balanced → Registers irq s c → machine.step s c = some s' →
      (s' irq).Balanced := fun _ _ _ hbal hreg hs => balanced_step hpos hirq hbal hreg hs
  refine ⟨?_, ?_⟩
  · exact Machine.always_of_along (fun _ hbal => hbal) hstep (balanced_initISAIrqs irq) h
  · exact Machine.along_of_along (I := fun s => (s irq).Balanced)
      (fun _ _ hbal hreg => linked_of_registers hirq hbal hreg) hstep (balanced_initISAIrqs irq) h

/-- Two drivers share line 9, while line 5 is refused. -/
def sharedRun : List IrqCall :=
  [.requestIrq 9 ⟨1, saShirq, 1⟩ true 0, .requestIrq 5 ⟨2, 0, 2⟩ true (-1),
    .setupIrq 9 ⟨3, saShirq, 3⟩ 0, .requestIrq 9 ⟨4, 0, 4⟩ true 0, .freeIrq 9 1, .freeIrq 9 3]

theorem balanced_and_linked_sharedRun :
    machine.Always (fun s => (s 9).Balanced) machine.init sharedRun ∧
      machine.Along (Linked 9) machine.init sharedRun :=
  balanced_and_linked (by decide) (by decide)
    (Machine.along_of_check (g := fun _ c => c.irq ≠ 9 ∨ c.rc = 0)
      (fun _ _ hg hline _ _ => (of_decide_eq_true hg).resolve_left (not_not.2 hline)) (by decide))

/-- A request for line 2 succeeds and links nothing; one for a line that is refused succeeds, links
its action and counts nothing. -/
theorem not_balanced_and_linked :
    (∃ s, machine.exec machine.init [.requestIrq 2 ⟨1, 0, 1⟩ true 0] = some s ∧
      ((machine.init 2).requestIrq 2 ⟨1, 0, 1⟩ true 0).1 = 0 ∧ (s 2).desc.action = [] ∧
      (s 2).irqSet = none) ∧
    ∃ s, machine.exec machine.init [.requestIrq 5 ⟨1, 0, 1⟩ true (-1)] = some s ∧
      ((machine.init 5).requestIrq 5 ⟨1, 0, 1⟩ true (-1)).1 = 0 ∧
      (s 5).desc.action = [⟨1, 0, 1⟩] ∧ (s 5).state.useCount = 0 ∧ (s 5).irqSet = none :=
  ⟨⟨_, rfl, by decide⟩, _, rfl, by decide⟩

end IrqLines

end LxApi32
