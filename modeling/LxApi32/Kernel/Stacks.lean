import LxApi32.Daemon.Packet
import LxApi32.Lib.Machine
import LxApi32.Lib.Pick

/-!
# Kernel stacks

A thread that enters the 32-bit kernel code gets a stack of `STACKSIZE` bytes.  There is a list of
stacks for tasks (`lx_StackRoot`), one for interrupts (`lx_IrqStackRoot`), and the `UTLStack`
entries with the own stacks of some threads.  `LXA_UtilStackAlloc` gives a thread its own stack, or
one of the first list if it has none or uses it already.  What is handed out is the upper end of
the stack, so every free subtracts `STACKCALC` to find the entry again.

`LXA_UtilStackFree` subtracts `STACKCALC` before it compares, and jumps to `LXA_StackFree`, which
subtracts it once more, when the stack is not the thread's own one.  So a stack of the first list
that a thread with a `UTLStack` entry frees stays in use for ever, or the stack below it is freed
(`Stacks.not_exclusive_neighbour`).

* `Stacks.always_exclusive_iff` : along every run the stacks in use are those that are handed out,
  each to one owner, exactly if no such free occurs and no thread gets as its own a stack that
  somebody else has or that is in one of the lists.

All of a call happens under the SMP lock.  The memory that the system hands out for a new stack is
part of the action; it is not in use.  The base addresses of the `UTLStack` entries are arbitrary.
-/

namespace LxApi32

/-- `STACKCALC` -/
def stackCalc : ULONG := 8192

/-- `PDDStack`; `used` is the bit `PDDSTACK_USED`. -/
structure PddStack where
  /-- `PDDStack_Base` -/
  base : ULONG
  /-- `PDDStack_Flags` -/
  used : Bool
  deriving DecidableEq, Repr

/-- A process id and a thread id. -/
structure ThreadId where
  /-- `LIS_CurProcID` -/
  pid : BitVec 16
  /-- `LIS_CurThrdID` -/
  tid : BitVec 16
  deriving DecidableEq, Repr

/-- `UTLStack`; `used` is the bit `UTLSTACK_USED`. -/
structure UtlStack where
  /-- `UTLStack_Base` -/
  base : ULONG
  /-- `UTLStack_Flags` -/
  used : Bool
  /-- `UTLStack_PID` and `UTLStack_TID` -/
  thread : ThreadId
  deriving DecidableEq, Repr

/-- Memory for new entries: whether a `PDDStack` structure can be allocated, and the stack, `0` if
there is none. -/
structure StackMemory where
  /-- There is memory for the structure. -/
  entry : Bool
  /-- The aligned memory for the stack. -/
  base : ULONG
  deriving DecidableEq, Repr

/-- `LXA_StackFindFreeEntry` at an entry that is not used, and the stack it returns. -/
def takeEntry (e : PddStack) (mem : StackMemory) : PddStack × ULONG :=
  if e.base ≠ 0 then (⟨e.base, true⟩, e.base + stackCalc)
  else if mem.base ≠ 0 then (⟨mem.base, true⟩, mem.base + stackCalc)
  else (⟨0, false⟩, 0)

/-- `LXA_StackFindFreeEntry` -/
def stackFindFreeEntry (mem : StackMemory) : List PddStack → List PddStack × ULONG
  | [] =>
    if mem.entry then
      let (e, eax) := takeEntry ⟨0, false⟩ mem
      ([e], eax)
    else ([], 0)
  | e :: rest =>
    if e.used then
      let (rest, eax) := stackFindFreeEntry mem rest
      (e :: rest, eax)
    else
      let (e, eax) := takeEntry e mem
      (e :: rest, eax)

/-- The loop of `LXA_StackFree` and of `LXA_IrqStackFree`. -/
def markUnused (base : ULONG) : List PddStack → List PddStack
  | [] => []
  | e :: rest => if base = e.base then ⟨e.base, false⟩ :: rest else e :: markUnused base rest

/-- `LXA_UtilStackFindEntry` for the current thread `th`. -/
def utilStackFindEntry (th : ThreadId) : List UtlStack → Option UtlStack
  | [] => none
  | e :: rest => if th = e.thread then some e else utilStackFindEntry th rest

/-- Set the flag of the entry that `utilStackFindEntry` finds. -/
def setUtlUsed (th : ThreadId) (used : Bool) : List UtlStack → List UtlStack
  | [] => []
  | e :: rest =>
    if th = e.thread then { e with used := used } :: rest else e :: setUtlUsed th used rest

/-- The three pairs of functions. -/
inductive StackKind
  /-- `LXA_StackAlloc`, `LXA_StackFree` -/
  | task
  /-- `LXA_IrqStackAlloc`, `LXA_IrqStackFree` -/
  | irq
  /-- `LXA_UtilStackAlloc`, `LXA_UtilStackFree` -/
  | util
  deriving DecidableEq, Repr

/-- A stack that is handed out. -/
structure StackOwner where
  /-- The functions that are used. -/
  kind : StackKind
  /-- The thread that has it. -/
  thread : ThreadId
  /-- The address that the alloc has returned. -/
  addr : ULONG
  deriving DecidableEq, Repr

/-- The stacks. -/
structure Stacks where
  /-- `lx_StackRoot` -/
  stackRoot : List PddStack
  /-- `lx_IrqStackRoot` -/
  irqStackRoot : List PddStack
  /-- `lx_UtlStackRoot` -/
  utlStackRoot : List UtlStack
  /-- The stacks that are handed out, a history variable. -/
  live : List StackOwner

/-- A call. -/
inductive StackAct
  /-- The thread `th` allocates a stack. -/
  | alloc (kind : StackKind) (th : ThreadId) (mem : StackMemory)
  /-- The owner of the `k`-th stack that is handed out frees it. -/
  | free (k : ℕ)
  deriving DecidableEq, Repr

/-- A stack of the system's memory neither begins nor ends at address `0`. -/
def IsStackBase (base : ULONG) : Prop := base ≠ 0 ∧ base + stackCalc ≠ 0

instance : DecidablePred IsStackBase :=
  fun base => inferInstanceAs (Decidable (base ≠ 0 ∧ base + stackCalc ≠ 0))

namespace Stacks

/-- The addresses that are handed out. -/
def addrs (s : Stacks) : List ULONG := s.live.map StackOwner.addr

/-- The memory of a new stack is not in use: it is no stack of a list, and nobody has it. -/
def Unused (s : Stacks) (base : ULONG) : Prop :=
  IsStackBase base ∧ base ∉ s.stackRoot.map PddStack.base ∧
    base ∉ s.irqStackRoot.map PddStack.base ∧ base + stackCalc ∉ s.addrs

instance (s : Stacks) : DecidablePred s.Unused :=
  fun base => inferInstanceAs (Decidable (IsStackBase base ∧ _ ∧ _ ∧ _))

/-- `LXA_StackAlloc` -/
def stackAlloc (s : Stacks) (mem : StackMemory) : Stacks × ULONG :=
  let (stackRoot, eax) := stackFindFreeEntry mem s.stackRoot
  ({ s with stackRoot }, eax)

/-- `LXA_StackFree` -/
def stackFree (s : Stacks) (eax : ULONG) : Stacks :=
  { s with stackRoot := markUnused (eax - stackCalc) s.stackRoot }

/-- `LXA_IrqStackAlloc` -/
def irqStackAlloc (s : Stacks) (mem : StackMemory) : Stacks × ULONG :=
  let (irqStackRoot, eax) := stackFindFreeEntry mem s.irqStackRoot
  ({ s with irqStackRoot }, eax)

/-- `LXA_IrqStackFree` -/
def irqStackFree (s : Stacks) (eax : ULONG) : Stacks :=
  { s with irqStackRoot := markUnused (eax - stackCalc) s.irqStackRoot }

/-- `LXA_UtilStackAlloc` -/
def utilStackAlloc (s : Stacks) (th : ThreadId) (mem : StackMemory) : Stacks × ULONG :=
  match utilStackFindEntry th s.utlStackRoot with
  | none => s.stackAlloc mem
  | some e =>
    if e.used then s.stackAlloc mem
    else ({ s with utlStackRoot := setUtlUsed th true s.utlStackRoot }, e.base + stackCalc)

/-- `LXA_UtilStackFree`.  What is passed on to `LXA_StackFree` is `ebx`. -/
def utilStackFree (s : Stacks) (th : ThreadId) (eax : ULONG) : Stacks :=
  match utilStackFindEntry th s.utlStackRoot with
  | none => s.stackFree eax
  | some e =>
    let ebx := eax - stackCalc
    if e.base ≠ ebx then s.stackFree ebx
    else if e.used = false then s.stackFree ebx
    else { s with utlStackRoot := setUtlUsed th false s.utlStackRoot }

/-- The alloc functions. -/
def alloc (s : Stacks) (th : ThreadId) (mem : StackMemory) : StackKind → Stacks × ULONG
  | .task => s.stackAlloc mem
  | .irq => s.irqStackAlloc mem
  | .util => s.utilStackAlloc th mem

/-- The free functions. -/
def free (s : Stacks) (th : ThreadId) (eax : ULONG) : StackKind → Stacks
  | .task => s.stackFree eax
  | .irq => s.irqStackFree eax
  | .util => s.utilStackFree th eax

/-- What an alloc returns is handed out, if it is not `0`. -/
def handOut (s : Stacks) (kind : StackKind) (th : ThreadId) (eax : ULONG) : Stacks :=
  if eax = 0 then s else { s with live := s.live ++ [⟨kind, th, eax⟩] }

/-- The step function. -/
def step (s : Stacks) : StackAct → Option Stacks
  | .alloc kind th mem =>
    if mem.base = 0 ∨ s.Unused mem.base then
      let (s', eax) := s.alloc th mem kind
      some (s'.handOut kind th eax)
    else none
  | .free k =>
    match s.live[k]? with
    | some x => some { s.free x.thread x.addr x.kind with live := s.live.eraseIdx k }
    | none => none

end Stacks

/-- The stacks there are at the beginning, none of them in use: those for interrupts that
`LX_Init_PDDStack` has allocated, and the threads' own ones. -/
structure StackConfig where
  /-- The bases of the stacks for interrupts. -/
  irq : List ULONG
  /-- The own stacks of threads. -/
  utl : List UtlStack
  /-- They are stacks. -/
  irq_base : ∀ b ∈ irq, IsStackBase b
  /-- Every stack is there once. -/
  irq_nodup : irq.Nodup
  /-- No thread uses its stack. -/
  utl_unused : ∀ e ∈ utl, e.used = false

namespace Stacks

/-- The state at the beginning. -/
def initial (c : StackConfig) : Stacks where
  stackRoot := []
  irqStackRoot := c.irq.map fun base => ⟨base, false⟩
  utlStackRoot := c.utl
  live := []

/-- The machine of the stacks. -/
def machine (c : StackConfig) : Machine Stacks StackAct := ⟨initial c, step⟩

/-- The stacks in use are those that are handed out, each to one owner. -/
structure Exclusive (s : Stacks) : Prop where
  /-- No stack is handed out twice. -/
  nodup : s.addrs.Nodup
  /-- The used stacks of the first list are those that are handed out. -/
  stackRoot : ∀ e ∈ s.stackRoot, e.used = true ↔ e.base ≠ 0 ∧ e.base + stackCalc ∈ s.addrs
  /-- So are those for interrupts. -/
  irqStackRoot : ∀ e ∈ s.irqStackRoot,
    e.used = true ↔ e.base ≠ 0 ∧ e.base + stackCalc ∈ s.addrs
  /-- A thread's own stack is used if the thread has got it. -/
  utlStackRoot : ∀ th e, utilStackFindEntry th s.utlStackRoot = some e →
    (e.used = true ↔ ⟨.util, th, e.base + stackCalc⟩ ∈ s.live)

/-- The address is the upper end of a stack of the list. -/
def From (l : List PddStack) (addr : ULONG) : Prop :=
  ∃ b ∈ l.map PddStack.base, b ≠ 0 ∧ addr = b + stackCalc

/-- Nobody has a stack at this address, and no list has one there. -/
def Vacant (s : Stacks) (addr : ULONG) : Prop :=
  addr ≠ 0 ∧ addr ∉ s.addrs ∧ ¬ From s.stackRoot addr ∧ ¬ From s.irqStackRoot addr

/-- A thread with a `UTLStack` entry frees no other stack by `LXA_UtilStackFree`, and gets its own
stack only while nobody else has one at the same place, and no list. -/
def Own (s : Stacks) : StackAct → Prop
  | .alloc .util th _ => ∀ e, utilStackFindEntry th s.utlStackRoot = some e → e.used = false →
      s.Vacant (e.base + stackCalc)
  | .free k => ∀ x, s.live[k]? = some x → x.kind = .util →
      ∀ e, utilStackFindEntry x.thread s.utlStackRoot = some e → x.addr = e.base + stackCalc
  | _ => True

/-! ### A list of stacks -/

end Stacks

theorem add_stackCalc_inj {b b' : ULONG} : b + stackCalc = b' + stackCalc ↔ b = b' :=
  add_left_inj _

/-- The entry is used exactly if its stack is handed out, as `A` says. -/
def EntryOk (A : ULONG → Prop) (e : PddStack) : Prop :=
  (e.base = 0 ∨ IsStackBase e.base) ∧ (e.used = true ↔ e.base ≠ 0 ∧ A (e.base + stackCalc))

/-- So are all entries of the list, and no stack is in it twice. -/
def PoolOk (A : ULONG → Prop) : List PddStack → Prop
  | [] => True
  | e :: rest =>
    EntryOk A e ∧ (e.base ≠ 0 → e.base ∉ rest.map PddStack.base) ∧ PoolOk A rest

section Pool

variable {A A' : ULONG → Prop} {l : List PddStack} {mem : StackMemory}

theorem PoolOk.entry (h : PoolOk A l) {e : PddStack} (he : e ∈ l) : EntryOk A e := by
  induction l with
  | nil => cases he
  | cons e' rest ih =>
    rcases List.mem_cons.1 he with rfl | he
    · exact h.1
    · exact ih h.2.2 he

theorem PoolOk.congr (h : PoolOk A l)
    (hA : ∀ b ∈ l.map PddStack.base, b ≠ 0 → (A' (b + stackCalc) ↔ A (b + stackCalc))) :
    PoolOk A' l := by
  induction l with
  | nil => trivial
  | cons e rest ih =>
    obtain ⟨⟨hbase, hused⟩, hnot, hrest⟩ := h
    refine ⟨⟨hbase, ?_⟩, hnot, ih hrest fun b hb => hA b (List.mem_cons_of_mem _ hb)⟩
    exact hused.trans (and_congr_right fun hne => (hA e.base List.mem_cons_self hne).symm)

/-- What `LXA_StackFindFreeEntry` does: the stack that it returns was not handed out, and it is the
only one that is used then and was not before. -/
structure TakenOk (A : ULONG → Prop) (mem : StackMemory) (l l' : List PddStack) (eax : ULONG) :
    Prop where
  /-- The list after the call. -/
  ok : PoolOk (fun a => eax ≠ 0 ∧ a = eax ∨ A a) l'
  /-- The stack was not handed out. -/
  fresh : eax ≠ 0 → ¬ A eax ∧ ∃ b ∈ l'.map PddStack.base, b ≠ 0 ∧ eax = b + stackCalc
  /-- There is no other new stack than the one that was allocated. -/
  bases : ∀ b ∈ l'.map PddStack.base, b = 0 ∨ b ∈ l.map PddStack.base ∨ b = mem.base
  /-- No stack is lost. -/
  keeps : ∀ b ∈ l.map PddStack.base, b ≠ 0 → b ∈ l'.map PddStack.base

/-- An unused entry with a stack, or with memory for one. -/
theorem takenOk_of_base {e : PddStack} {rest : List PddStack} {b : ULONG}
    (h : PoolOk A (e :: rest)) (hb : IsStackBase b) (hA : ¬ A (b + stackCalc))
    (hrest : b ∉ rest.map PddStack.base) (he : e.base ≠ 0 → e.base = b)
    (hmem : e.base = b ∨ b = mem.base) :
    TakenOk A mem (e :: rest) (⟨b, true⟩ :: rest) (b + stackCalc) := by
  refine ⟨⟨⟨.inr hb, ?_⟩, fun _ => hrest, ?_⟩, ?_, ?_, ?_⟩
  · exact iff_of_true rfl ⟨hb.1, .inl ⟨hb.2, rfl⟩⟩
  · refine h.2.2.congr ?_
    intro b' hb' _
    refine ⟨?_, .inr⟩
    rintro (⟨-, heq⟩ | h')
    · exact absurd (add_stackCalc_inj.1 heq ▸ hb') hrest
    · exact h'
  · exact fun _ => ⟨hA, b, List.mem_cons_self, hb.1, rfl⟩
  · intro b' hb'
    rcases List.mem_cons.1 hb' with rfl | hb'
    · rcases hmem with heq | heq
      · exact .inr (.inl (heq ▸ List.mem_cons_self))
      · exact .inr (.inr heq)
    · exact .inr (.inl (List.mem_cons_of_mem _ hb'))
  · intro b' hb' hne
    rcases List.mem_cons.1 hb' with rfl | hb'
    · exact he hne ▸ List.mem_cons_self
    · exact List.mem_cons_of_mem _ hb'

/-- Nothing is handed out. -/
theorem takenOk_zero {l' : List PddStack} (h : PoolOk A l') (hl : ∀ b ∈ l'.map PddStack.base,
    b = 0 ∨ b ∈ l.map PddStack.base) (hl' : ∀ b ∈ l.map PddStack.base, b ∈ l'.map PddStack.base) :
    TakenOk A mem l l' 0 := by
  refine ⟨?_, fun h0 => absurd rfl h0, ?_, fun b hb _ => hl' b hb⟩
  · refine h.congr fun b _ _ => ⟨?_, .inr⟩
    rintro (⟨h0, -⟩ | h')
    · exact absurd rfl h0
    · exact h'
  · exact fun b hb => (hl b hb).imp_right .inl

/-- `LXA_StackFindFreeEntry` at an entry that is not used. -/
theorem takenOk_takeEntry {e : PddStack} {rest : List PddStack} (h : PoolOk A (e :: rest))
    (hu : e.used = false) (hmem : mem.base = 0 ∨ IsStackBase mem.base)
    (hnew : mem.base ∉ rest.map PddStack.base ∨ mem.base = 0)
    (hA : mem.base ≠ 0 → ¬ A (mem.base + stackCalc)) :
    TakenOk A mem (e :: rest) ((takeEntry e mem).1 :: rest) (takeEntry e mem).2 := by
  unfold takeEntry
  by_cases hbase : e.base ≠ 0
  · -- the entry has a stack
    rw [if_pos hbase]
    have hnot : ¬ A (e.base + stackCalc) := fun hA' =>
      Bool.false_ne_true (hu.symm.trans (h.1.2.2 ⟨hbase, hA'⟩))
    exact takenOk_of_base h (h.1.1.resolve_left hbase) hnot (h.2.1 hbase) (fun _ => rfl) (.inl rfl)
  · rw [if_neg hbase]
    by_cases hb : mem.base ≠ 0
    · rw [if_pos hb]
      exact takenOk_of_base h (hmem.resolve_left hb) (hA hb) (hnew.resolve_right hb)
        (fun hne => absurd hne hbase) (.inr rfl)
    · rw [if_neg hb]
      obtain ⟨base, used⟩ := e
      obtain rfl : base = 0 := not_not.1 hbase
      obtain rfl : used = false := hu
      exact takenOk_zero h (fun _ => .inr) fun _ => id

theorem stackFindFreeEntry_ok (h : PoolOk A l) (hmem : mem.base = 0 ∨ IsStackBase mem.base)
    (hnew : mem.base ∉ l.map PddStack.base ∨ mem.base = 0)
    (hA : mem.base ≠ 0 → ¬ A (mem.base + stackCalc)) :
    TakenOk A mem l (stackFindFreeEntry mem l).1 (stackFindFreeEntry mem l).2 := by
  induction l with
  | nil =>
    simp only [stackFindFreeEntry]
    split_ifs
    · -- a new entry without a stack
      have hnil : PoolOk A [⟨0, false⟩] :=
        ⟨⟨.inl rfl, iff_of_false Bool.false_ne_true fun h => h.1 rfl⟩, fun h => absurd rfl h,
          trivial⟩
      have htaken := takenOk_takeEntry hnil rfl hmem (.inl List.not_mem_nil) hA
      refine ⟨htaken.ok, htaken.fresh, ?_, nofun⟩
      intro b hb
      rcases htaken.bases b hb with h0 | hb | hb
      · exact .inl h0
      · exact .inl (List.mem_singleton.1 hb)
      · exact .inr (.inr hb)
    · exact takenOk_zero trivial (fun _ => .inr) fun _ => id
  | cons e rest ih =>
    have hnew' : mem.base ∉ rest.map PddStack.base ∨ mem.base = 0 :=
      hnew.imp_left fun hn hm => hn (List.mem_cons_of_mem _ hm)
    simp only [stackFindFreeEntry]
    split_ifs with hu
    · -- a used entry stays as it is
      have htaken := ih h.2.2 hnew'
      refine ⟨⟨⟨h.1.1, ?_⟩, ?_, htaken.ok⟩, ?_, ?_, ?_⟩
      · obtain ⟨hne, hA'⟩ := h.1.2.1 hu
        exact iff_of_true hu ⟨hne, .inr hA'⟩
      · intro hne hm
        rcases htaken.bases _ hm with h0 | hm | hm
        · exact hne h0
        · exact h.2.1 hne hm
        · rcases hnew with hn | hn
          · exact hn (hm ▸ List.mem_cons_self)
          · exact hne (hm.trans hn)
      · intro h0
        obtain ⟨hA', b, hb, hb'⟩ := htaken.fresh h0
        exact ⟨hA', b, List.mem_cons_of_mem _ hb, hb'⟩
      · intro b hb
        rcases List.mem_cons.1 hb with rfl | hb
        · exact .inr (.inl List.mem_cons_self)
        · exact (htaken.bases b hb).imp_right (.imp_left (List.mem_cons_of_mem _))
      · intro b hb hne
        rcases List.mem_cons.1 hb with rfl | hb
        · exact List.mem_cons_self
        · exact List.mem_cons_of_mem _ (htaken.keeps b hb hne)
    · exact takenOk_takeEntry h (Bool.eq_false_of_not_eq_true hu) hmem hnew' hA

theorem map_base_markUnused (b : ULONG) (l : List PddStack) :
    (markUnused b l).map PddStack.base = l.map PddStack.base := by
  induction l with
  | nil => rfl
  | cons e rest ih =>
    simp only [markUnused]
    split_ifs
    · rfl
    · simp only [List.map_cons, ih]

/-- `LXA_StackFree` marks the stack unused that is given back, and no other. -/
theorem PoolOk.markUnused (h : PoolOk A l) (b : ULONG) :
    PoolOk (fun a => A a ∧ a ≠ b + stackCalc) (markUnused b l) := by
  induction l with
  | nil => trivial
  | cons e rest ih =>
    obtain ⟨⟨hbase, hused⟩, hnot, hrest⟩ := h
    simp only [LxApi32.markUnused]
    split_ifs with hb
    · subst hb
      refine ⟨⟨hbase, iff_of_false Bool.false_ne_true fun h' => h'.2.2 rfl⟩, hnot, ?_⟩
      refine hrest.congr fun b hb hne => ⟨And.left, fun hA => ⟨hA, ?_⟩⟩
      intro heq
      obtain rfl := add_stackCalc_inj.1 heq
      exact hnot hne hb
    · refine ⟨⟨hbase, hused.trans (and_congr_right fun _ => ?_)⟩, ?_, ih hrest⟩
      · exact ⟨fun hA => ⟨hA, fun heq => hb (add_stackCalc_inj.1 heq).symm⟩, And.left⟩
      · rwa [map_base_markUnused]

/-- A stack with another base stays as it is. -/
theorem mem_markUnused {b : ULONG} {e : PddStack} (he : e ∈ l) (hb : e.base ≠ b) :
    e ∈ markUnused b l := by
  induction l with
  | nil => cases he
  | cons e' rest ih =>
    simp only [LxApi32.markUnused]
    rcases List.mem_cons.1 he with rfl | he
    · rw [if_neg hb.symm]
      exact List.mem_cons_self
    · split_ifs
      · exact List.mem_cons_of_mem _ he
      · exact List.mem_cons_of_mem _ (ih he)

end Pool

/-- The next call takes the first unused stack, also one that was freed. -/
theorem stackFindFreeEntry_reuse {l₁ l₂ : List PddStack} {b : ULONG} (hb : b ≠ 0)
    (h : ∀ e ∈ l₁, e.used = true) (mem : StackMemory) :
    stackFindFreeEntry mem (l₁ ++ ⟨b, false⟩ :: l₂) =
      (l₁ ++ ⟨b, true⟩ :: l₂, b + stackCalc) := by
  induction l₁ with
  | nil =>
    simp only [List.nil_append, stackFindFreeEntry, Bool.false_eq_true, ↓reduceIte, takeEntry,
      ne_eq, hb, not_false_eq_true]
  | cons e rest ih =>
    rw [List.cons_append, stackFindFreeEntry, if_pos (h e List.mem_cons_self),
      ih fun e' he => h e' (List.mem_cons_of_mem _ he)]
    rfl

/-! ### The own stacks of threads -/

theorem utilStackFindEntry_setUtlUsed (th : ThreadId) (used : Bool) (l : List UtlStack)
    (th' : ThreadId) :
    utilStackFindEntry th' (setUtlUsed th used l) =
      if th' = th then (utilStackFindEntry th' l).map fun e => { e with used := used }
      else utilStackFindEntry th' l := by
  induction l with
  | nil => simp only [setUtlUsed, utilStackFindEntry, Option.map_none, ite_self]
  | cons e rest ih =>
    simp only [setUtlUsed]
    by_cases hth : th = e.thread
    · rw [if_pos hth]
      simp only [utilStackFindEntry]
      by_cases hth' : th' = e.thread
      · rw [if_pos hth', if_pos hth', if_pos (hth'.trans hth.symm)]
        rfl
      · rw [if_neg hth', if_neg hth', if_neg fun h => hth' (h.trans hth)]
    · rw [if_neg hth]
      simp only [utilStackFindEntry]
      by_cases hth' : th' = e.thread
      · rw [if_pos hth', if_pos hth', if_neg fun h => hth (h.symm.trans hth')]
      · rw [if_neg hth', if_neg hth', ih]

/-- The base of the entry stays as it is. -/
theorem base_utilStackFindEntry_setUtlUsed (th : ThreadId) (used : Bool) (l : List UtlStack)
    (th' : ThreadId) :
    (utilStackFindEntry th' (setUtlUsed th used l)).map UtlStack.base =
      (utilStackFindEntry th' l).map UtlStack.base := by
  rw [utilStackFindEntry_setUtlUsed]
  split_ifs
  · rw [Option.map_map]
    rfl
  · rfl

theorem mem_of_utilStackFindEntry {th : ThreadId} {l : List UtlStack} {e : UtlStack}
    (h : utilStackFindEntry th l = some e) : e ∈ l := by
  induction l with
  | nil => cases h
  | cons e' rest ih =>
    simp only [utilStackFindEntry] at h
    split_ifs at h
    · exact Option.some.inj h ▸ List.mem_cons_self
    · exact List.mem_cons_of_mem _ (ih h)

namespace Stacks

/-! ### The invariant -/

/-- The base of the thread's own stack. -/
def ownBase (s : Stacks) (th : ThreadId) : Option ULONG :=
  (utilStackFindEntry th s.utlStackRoot).map UtlStack.base

/-- Where a stack that is handed out comes from. -/
def Origin (s : Stacks) (x : StackOwner) : Prop :=
  match x.kind with
  | .task => From s.stackRoot x.addr
  | .irq => From s.irqStackRoot x.addr
  | .util => From s.stackRoot x.addr ∨ ∃ b, s.ownBase x.thread = some b ∧ x.addr = b + stackCalc

/-- No stack is in two of the lists, and none that a thread uses as its own. -/
structure Apart (s : Stacks) : Prop where
  /-- A stack for tasks is none for interrupts. -/
  root_irq : ∀ b ∈ s.stackRoot.map PddStack.base, b ≠ 0 → b ∉ s.irqStackRoot.map PddStack.base
  /-- A thread's own stack, while it uses it, is none for tasks. -/
  root_utl : ∀ th e, utilStackFindEntry th s.utlStackRoot = some e → e.used = true →
    ¬ From s.stackRoot (e.base + stackCalc)
  /-- Nor is it one for interrupts. -/
  irq_utl : ∀ th e, utilStackFindEntry th s.utlStackRoot = some e → e.used = true →
    ¬ From s.irqStackRoot (e.base + stackCalc)

/-- The invariant. -/
structure StacksInv (s : Stacks) : Prop where
  /-- No stack is handed out twice. -/
  nodup : s.addrs.Nodup
  /-- The used stacks are those that are handed out. -/
  stackRoot : PoolOk (· ∈ s.addrs) s.stackRoot
  /-- So are those for interrupts. -/
  irqStackRoot : PoolOk (· ∈ s.addrs) s.irqStackRoot
  /-- And the threads' own ones. -/
  utlStackRoot : ∀ th e, utilStackFindEntry th s.utlStackRoot = some e →
    (e.used = true ↔ ⟨.util, th, e.base + stackCalc⟩ ∈ s.live)
  /-- No stack is in two of the lists. -/
  apart : s.Apart
  /-- Every stack that is handed out comes from its list. -/
  origin : ∀ x ∈ s.live, s.Origin x

theorem StacksInv.exclusive {s : Stacks} (h : StacksInv s) : Exclusive s :=
  ⟨h.nodup, fun _ he => (h.stackRoot.entry he).2, fun _ he => (h.irqStackRoot.entry he).2,
    h.utlStackRoot⟩

/-- A thread that uses its own stack has been given it. -/
theorem StacksInv.mem_addrs_of_used {s : Stacks} (h : StacksInv s) {th : ThreadId} {e : UtlStack}
    (he : utilStackFindEntry th s.utlStackRoot = some e) (hu : e.used = true) :
    e.base + stackCalc ∈ s.addrs :=
  List.mem_map.2 ⟨_, (h.utlStackRoot th e he).1 hu, rfl⟩

theorem ownBase_of_find {s : Stacks} {th : ThreadId} {e : UtlStack}
    (he : utilStackFindEntry th s.utlStackRoot = some e) : s.ownBase th = some e.base := by
  rw [ownBase, he, Option.map_some]

/-- Handing out a stack of a state whose lists already count it. -/
theorem stacksInv_handOut {s : Stacks} {kind : StackKind} {th : ThreadId} {eax : ULONG}
    (hnodup : s.addrs.Nodup) (hfresh : eax ≠ 0 → eax ∉ s.addrs)
    (hroot : PoolOk (fun a => eax ≠ 0 ∧ a = eax ∨ a ∈ s.addrs) s.stackRoot)
    (hirq : PoolOk (fun a => eax ≠ 0 ∧ a = eax ∨ a ∈ s.addrs) s.irqStackRoot)
    (hutl : ∀ th' e, utilStackFindEntry th' s.utlStackRoot = some e → (e.used = true ↔
      eax ≠ 0 ∧ (⟨.util, th', e.base + stackCalc⟩ : StackOwner) = ⟨kind, th, eax⟩ ∨
        ⟨.util, th', e.base + stackCalc⟩ ∈ s.live))
    (hapart : s.Apart) (horigin : ∀ x ∈ s.live, s.Origin x)
    (hnew : eax ≠ 0 → s.Origin ⟨kind, th, eax⟩) : StacksInv (s.handOut kind th eax) := by
  by_cases h0 : eax = 0
  · subst h0
    have hsame : s.handOut kind th 0 = s := if_pos rfl
    rw [hsame]
    refine ⟨hnodup, ?_, ?_, ?_, hapart, horigin⟩
    · simpa using hroot
    · simpa using hirq
    · simpa using hutl
  · have hs' : s.handOut kind th eax = { s with live := s.live ++ [⟨kind, th, eax⟩] } := if_neg h0
    have haddrs : (s.handOut kind th eax).addrs = s.addrs ++ [eax] := by
      rw [hs', addrs, List.map_append]
      rfl
    have hmem : ∀ a, a ∈ s.addrs ++ [eax] ↔ eax ≠ 0 ∧ a = eax ∨ a ∈ s.addrs := by
      intro a
      simp only [List.mem_append, List.mem_singleton, ne_eq, h0, not_false_eq_true, true_and]
      exact or_comm
    refine ⟨?_, ?_, ?_, ?_, ?_, ?_⟩
    · rw [haddrs]
      exact hnodup.append (List.nodup_singleton _) (List.disjoint_singleton.2 (hfresh h0))
    · rw [haddrs, hs']
      exact hroot.congr fun b _ _ => hmem _
    · rw [haddrs, hs']
      exact hirq.congr fun b _ _ => hmem _
    · rw [hs']
      intro th' e he
      refine (hutl th' e he).trans ?_
      simp only [List.mem_append, List.mem_singleton, ne_eq, h0, not_false_eq_true, true_and]
      exact or_comm
    · rw [hs']
      exact ⟨hapart.1, hapart.2, hapart.3⟩
    · rw [hs']
      intro x hx
      rcases List.mem_append.1 hx with hx | hx
      · exact horigin x hx
      · exact List.mem_singleton.1 hx ▸ hnew h0

theorem From.congr {l l' : List PddStack} {a : ULONG} (h : From l a)
    (hl : ∀ b ∈ l.map PddStack.base, b ≠ 0 → b ∈ l'.map PddStack.base) : From l' a := by
  obtain ⟨b, hb, hne, ha⟩ := h
  exact ⟨b, hl b hb hne, hne, ha⟩

/-- A stack of another list is none of this one. -/
theorem not_from {l l' : List PddStack} (h : ∀ b ∈ l.map PddStack.base, b ≠ 0 →
    b ∉ l'.map PddStack.base) {a : ULONG} (ha : From l a) {b : ULONG}
    (hb : b ∈ l'.map PddStack.base) : b + stackCalc ≠ a := by
  obtain ⟨b', hb', hne, rfl⟩ := ha
  intro heq
  obtain rfl := add_stackCalc_inj.1 heq
  exact h _ hb' hne hb

/-- After `LXA_StackFindFreeEntry` a list has no new stack that anybody has. -/
theorem not_from_of_taken {A : ULONG → Prop} {s : Stacks} {mem : StackMemory}
    {l l' : List PddStack} {eax : ULONG} (h : TakenOk A mem l l' eax)
    (hmem : mem.base = 0 ∨ s.Unused mem.base) {a : ULONG} (ha : a ∈ s.addrs) (hl : ¬ From l a) :
    ¬ From l' a := by
  rintro ⟨b, hb, hne, rfl⟩
  rcases h.bases b hb with h0 | hb | rfl
  · exact hne h0
  · exact hl ⟨b, hb, hne, rfl⟩
  · exact (hmem.resolve_left hne).2.2.2 ha

/-- A stack of the list of tasks.  A thread that asks for it by `LXA_UtilStackAlloc` has no own
stack, or uses it. -/
theorem stacksInv_stackAlloc {s : Stacks} (h : StacksInv s) {mem : StackMemory} {kind : StackKind}
    {th : ThreadId} (hmem : mem.base = 0 ∨ s.Unused mem.base) (hkind : kind = .task ∨ kind = .util ∧
      ∀ e, utilStackFindEntry th s.utlStackRoot = some e → e.used = true) :
    StacksInv ((s.stackAlloc mem).1.handOut kind th (s.stackAlloc mem).2) := by
  have htaken := stackFindFreeEntry_ok h.stackRoot (hmem.imp_right And.left)
    (hmem.symm.imp_left fun hu => hu.2.1) fun hne => (hmem.resolve_left hne).2.2.2
  set l' := (stackFindFreeEntry mem s.stackRoot).1
  set eax := (stackFindFreeEntry mem s.stackRoot).2
  have hapart : Apart { s with stackRoot := l' } := by
    refine ⟨?_, ?_, h.apart.irq_utl⟩
    · intro b hb hne
      rcases htaken.bases b hb with h0 | hb | rfl
      · exact absurd h0 hne
      · exact h.apart.root_irq b hb hne
      · exact (hmem.resolve_left hne).2.2.1
    · intro th' e he hu
      exact not_from_of_taken htaken hmem (h.mem_addrs_of_used he hu) (h.apart.root_utl th' e he hu)
  have hfrom : eax ≠ 0 → From l' eax := fun h0 => (htaken.fresh h0).2
  refine stacksInv_handOut (s := { s with stackRoot := l' }) h.nodup
    (fun h0 => (htaken.fresh h0).1) htaken.ok ?_ ?_ hapart ?_ ?_
  · refine h.irqStackRoot.congr fun b hb _ => ⟨?_, .inr⟩
    rintro (⟨h0, heq⟩ | hmem)
    · exact absurd heq (not_from hapart.root_irq (hfrom h0) hb)
    · exact hmem
  · intro th' e he
    refine (h.utlStackRoot th' e he).trans ⟨.inr, ?_⟩
    rintro (⟨h0, heq⟩ | hmem)
    · obtain ⟨rfl, rfl, haddr⟩ := StackOwner.mk.inj heq
      have hu : e.used = true := (hkind.resolve_left nofun).2 e he
      have hmem : eax ∈ s.addrs := haddr.subst (h.mem_addrs_of_used he hu)
      exact absurd hmem (htaken.fresh h0).1
    · exact hmem
  · intro x hx
    have horigin := h.origin x hx
    obtain ⟨kind, th, addr⟩ := x
    cases kind with
    | task => exact horigin.congr htaken.keeps
    | irq => exact horigin
    | util => exact horigin.imp_left fun hf => hf.congr htaken.keeps
  · intro h0
    rcases hkind with rfl | ⟨rfl, -⟩
    · exact hfrom h0
    · exact .inl (hfrom h0)

/-- A stack for interrupts. -/
theorem stacksInv_irqStackAlloc {s : Stacks} (h : StacksInv s) {mem : StackMemory}
    (hmem : mem.base = 0 ∨ s.Unused mem.base) (th : ThreadId) :
    StacksInv ((s.irqStackAlloc mem).1.handOut .irq th (s.irqStackAlloc mem).2) := by
  have htaken := stackFindFreeEntry_ok h.irqStackRoot (hmem.imp_right And.left)
    (hmem.symm.imp_left fun hu => hu.2.2.1) fun hne => (hmem.resolve_left hne).2.2.2
  set l' := (stackFindFreeEntry mem s.irqStackRoot).1
  set eax := (stackFindFreeEntry mem s.irqStackRoot).2
  have hapart : Apart { s with irqStackRoot := l' } := by
    refine ⟨?_, h.apart.root_utl, ?_⟩
    · intro b hb hne hb'
      rcases htaken.bases b hb' with h0 | hb' | rfl
      · exact hne h0
      · exact h.apart.root_irq b hb hne hb'
      · exact (hmem.resolve_left hne).2.1 hb
    · intro th' e he hu
      exact not_from_of_taken htaken hmem (h.mem_addrs_of_used he hu) (h.apart.irq_utl th' e he hu)
  have hfrom : eax ≠ 0 → From l' eax := fun h0 => (htaken.fresh h0).2
  refine stacksInv_handOut (s := { s with irqStackRoot := l' }) h.nodup
    (fun h0 => (htaken.fresh h0).1) ?_ htaken.ok ?_ hapart ?_ hfrom
  · refine h.stackRoot.congr fun b hb hne => ⟨?_, .inr⟩
    rintro (⟨h0, heq⟩ | hmem)
    · obtain ⟨b', hb', -, heq'⟩ := hfrom h0
      obtain rfl := add_stackCalc_inj.1 (heq.trans heq')
      exact absurd hb' (hapart.root_irq b hb hne)
    · exact hmem
  · intro th' e he
    refine (h.utlStackRoot th' e he).trans ⟨.inr, ?_⟩
    rintro (⟨-, heq⟩ | hmem)
    · exact nomatch congrArg StackOwner.kind heq
    · exact hmem
  · intro x hx
    have horigin := h.origin x hx
    obtain ⟨kind, th, addr⟩ := x
    cases kind with
    | task => exact horigin
    | irq => exact horigin.congr htaken.keeps
    | util => exact horigin

/-- A thread's own stack. -/
theorem stacksInv_setUtlUsed {s : Stacks} (h : StacksInv s) {th : ThreadId} {e : UtlStack}
    (he : utilStackFindEntry th s.utlStackRoot = some e) (hvacant : s.Vacant (e.base + stackCalc)) :
    StacksInv (handOut { s with utlStackRoot := setUtlUsed th true s.utlStackRoot } .util th
      (e.base + stackCalc)) := by
  obtain ⟨h0, hnot, hroot, hirq⟩ := hvacant
  have hfind := utilStackFindEntry_setUtlUsed th true s.utlStackRoot
  have hself : utilStackFindEntry th (setUtlUsed th true s.utlStackRoot) =
      some { e with used := true } := by
    rw [hfind, if_pos rfl, he]
    rfl
  have hother : ∀ {th' e'}, th' ≠ th →
      utilStackFindEntry th' (setUtlUsed th true s.utlStackRoot) = some e' →
      utilStackFindEntry th' s.utlStackRoot = some e' := by
    intro th' e' hth he'
    rw [← he', hfind, if_neg hth]
  have hapart : Apart { s with utlStackRoot := setUtlUsed th true s.utlStackRoot } := by
    refine ⟨h.apart.root_irq, ?_, ?_⟩
    · intro th' e' he' hu
      by_cases hth : th' = th
      · subst hth
        obtain rfl := Option.some.inj (hself.symm.trans he')
        exact hroot
      · exact h.apart.root_utl th' e' (hother hth he') hu
    · intro th' e' he' hu
      by_cases hth : th' = th
      · subst hth
        obtain rfl := Option.some.inj (hself.symm.trans he')
        exact hirq
      · exact h.apart.irq_utl th' e' (hother hth he') hu
  refine stacksInv_handOut (s := { s with utlStackRoot := setUtlUsed th true s.utlStackRoot })
    h.nodup (fun _ => hnot) ?_ ?_ ?_ hapart ?_ fun _ => .inr ⟨_, ownBase_of_find hself, rfl⟩
  · refine h.stackRoot.congr fun b hb hne => ⟨?_, .inr⟩
    rintro (⟨-, heq⟩ | hmem)
    · exact absurd ⟨b, hb, hne, heq.symm⟩ hroot
    · exact hmem
  · refine h.irqStackRoot.congr fun b hb hne => ⟨?_, .inr⟩
    rintro (⟨-, heq⟩ | hmem)
    · exact absurd ⟨b, hb, hne, heq.symm⟩ hirq
    · exact hmem
  · intro th' e' he'
    by_cases hth : th' = th
    · subst hth
      obtain rfl := Option.some.inj (hself.symm.trans he')
      exact iff_of_true rfl (.inl ⟨h0, rfl⟩)
    · refine (h.utlStackRoot th' e' (hother hth he')).trans ⟨.inr, ?_⟩
      rintro (⟨-, heq⟩ | hmem)
      · exact absurd (congrArg StackOwner.thread heq) hth
      · exact hmem
  · intro x hx
    have horigin := h.origin x hx
    obtain ⟨kind, th', addr⟩ := x
    cases kind with
    | task => exact horigin
    | irq => exact horigin
    | util =>
      refine horigin.imp_right ?_
      rintro ⟨b, hb, haddr⟩
      exact ⟨b, (base_utilStackFindEntry_setUtlUsed ..).trans hb, haddr⟩

/-! ### Giving a stack back -/

/-- The stack `x` is given back, and the lists count it no longer. -/
theorem stacksInv_remove {s s' : Stacks} (h : StacksInv s) {k : ℕ} {x : StackOwner}
    (hk : s.live[k]? = some x) (hlive : s'.live = s.live.eraseIdx k)
    (hroot : PoolOk (fun a => a ∈ s.addrs ∧ a ≠ x.addr) s'.stackRoot)
    (hirq : PoolOk (fun a => a ∈ s.addrs ∧ a ≠ x.addr) s'.irqStackRoot)
    (hrootBase : s'.stackRoot.map PddStack.base = s.stackRoot.map PddStack.base)
    (hirqBase : s'.irqStackRoot.map PddStack.base = s.irqStackRoot.map PddStack.base)
    (hown : ∀ th, s'.ownBase th = s.ownBase th)
    (hutl : ∀ th e, utilStackFindEntry th s'.utlStackRoot = some e → (e.used = true ↔
      (⟨.util, th, e.base + stackCalc⟩ : StackOwner) ∈ s.live ∧
        (⟨.util, th, e.base + stackCalc⟩ : StackOwner) ≠ x)) : StacksInv s' := by
  have hmem : ∀ y, y ∈ s.live.eraseIdx k ↔ y ∈ s.live ∧ y ≠ x := fun _ => Pick.mem_iff hk h.nodup
  have haddr : ∀ a, a ∈ (s.live.eraseIdx k).map StackOwner.addr ↔ a ∈ s.addrs ∧ a ≠ x.addr :=
    fun _ => Pick.mem_map_iff hk h.nodup
  have haddrs : s'.addrs = (s.live.eraseIdx k).map StackOwner.addr := by rw [addrs, hlive]
  -- who still uses the own stack has used it before
  have hused : ∀ th e, utilStackFindEntry th s'.utlStackRoot = some e → e.used = true →
      ∃ e', utilStackFindEntry th s.utlStackRoot = some e' ∧ e'.used = true ∧ e'.base = e.base := by
    intro th e he hu
    have hbase := hown th
    rw [ownBase_of_find he] at hbase
    obtain ⟨e', he', heq⟩ := Option.map_eq_some_iff.1 hbase.symm
    refine ⟨e', he', (h.utlStackRoot th e' he').2 ?_, heq⟩
    rw [heq]
    exact ((hutl th e he).1 hu).1
  refine ⟨haddrs ▸ (Pick.nodup_map hk h.nodup).2, ?_, ?_, ?_, ⟨?_, ?_, ?_⟩, ?_⟩
  · rw [haddrs]
    exact hroot.congr fun b _ _ => haddr _
  · rw [haddrs]
    exact hirq.congr fun b _ _ => haddr _
  · intro th e he
    rw [hlive, hmem]
    exact hutl th e he
  · rw [hrootBase, hirqBase]
    exact h.apart.root_irq
  · intro th e he hu hf
    obtain ⟨e', he', hu', hbase⟩ := hused th e he hu
    rw [← hbase] at hf
    exact h.apart.root_utl th e' he' hu' (hf.congr fun b hb _ => hrootBase ▸ hb)
  · intro th e he hu hf
    obtain ⟨e', he', hu', hbase⟩ := hused th e he hu
    rw [← hbase] at hf
    exact h.apart.irq_utl th e' he' hu' (hf.congr fun b hb _ => hirqBase ▸ hb)
  · intro y hy
    rw [hlive, hmem] at hy
    have horigin := h.origin y hy.1
    obtain ⟨kind, th, addr⟩ := y
    cases kind with
    | task => exact horigin.congr fun b hb _ => hrootBase ▸ hb
    | irq => exact horigin.congr fun b hb _ => hirqBase ▸ hb
    | util =>
      refine horigin.imp (fun hf => hf.congr fun b hb _ => hrootBase ▸ hb) ?_
      rintro ⟨b, hb, heq⟩
      exact ⟨b, (hown th).trans hb, heq⟩

/-- `LXA_StackFree` with a stack of the list of tasks. -/
theorem stacksInv_stackFree {s : Stacks} (h : StacksInv s) {k : ℕ} {x : StackOwner}
    (hk : s.live[k]? = some x) (hfrom : From s.stackRoot x.addr)
    (hkind : x.kind = .util → utilStackFindEntry x.thread s.utlStackRoot = none) :
    StacksInv { s.stackFree x.addr with live := s.live.eraseIdx k } := by
  refine stacksInv_remove h hk rfl ?_ ?_ (map_base_markUnused ..) rfl (fun _ => rfl) ?_
  · have := h.stackRoot.markUnused (x.addr - stackCalc)
    rwa [sub_add_cancel] at this
  · refine h.irqStackRoot.congr fun b hb _ => ⟨And.left, fun hmem => ⟨hmem, ?_⟩⟩
    exact not_from h.apart.root_irq hfrom hb
  · intro th e he
    refine (h.utlStackRoot th e he).trans ⟨fun hmem => ⟨hmem, ?_⟩, And.left⟩
    rintro rfl
    exact Option.some_ne_none e (he.symm.trans (hkind rfl))

/-- `LXA_IrqStackFree` with a stack for interrupts. -/
theorem stacksInv_irqStackFree {s : Stacks} (h : StacksInv s) {k : ℕ} {x : StackOwner}
    (hk : s.live[k]? = some x) (hfrom : From s.irqStackRoot x.addr) (hkind : x.kind = .irq) :
    StacksInv { s.irqStackFree x.addr with live := s.live.eraseIdx k } := by
  refine stacksInv_remove h hk rfl ?_ ?_ rfl (map_base_markUnused ..) (fun _ => rfl) ?_
  · refine h.stackRoot.congr fun b hb hne => ⟨And.left, fun hmem => ⟨hmem, ?_⟩⟩
    intro heq
    obtain ⟨b', hb', -, heq'⟩ := hfrom
    obtain rfl := add_stackCalc_inj.1 (heq.trans heq')
    exact h.apart.root_irq b hb hne hb'
  · have := h.irqStackRoot.markUnused (x.addr - stackCalc)
    rwa [sub_add_cancel] at this
  · intro th e he
    refine (h.utlStackRoot th e he).trans ⟨fun hmem => ⟨hmem, ?_⟩, And.left⟩
    rintro rfl
    exact nomatch hkind

/-- A thread gives back its own stack. -/
theorem stacksInv_utilStackFree {s : Stacks} (h : StacksInv s) {k : ℕ} {x : StackOwner}
    (hk : s.live[k]? = some x) (hkind : x.kind = .util) {e : UtlStack}
    (he : utilStackFindEntry x.thread s.utlStackRoot = some e)
    (hx : x.addr = e.base + stackCalc) :
    StacksInv { s.utilStackFree x.thread x.addr with live := s.live.eraseIdx k } := by
  obtain ⟨kind, th, addr⟩ := x
  obtain rfl : kind = .util := hkind
  obtain rfl : addr = e.base + stackCalc := hx
  have hused : e.used = true := (h.utlStackRoot th e he).2 (List.mem_of_getElem? hk)
  have hself : s.utilStackFree th (e.base + stackCalc) =
      { s with utlStackRoot := setUtlUsed th false s.utlStackRoot } := by
    have he' : utilStackFindEntry th s.utlStackRoot = some e := he
    simp [utilStackFree, he', hused]
  have hfind := utilStackFindEntry_setUtlUsed th false s.utlStackRoot
  refine stacksInv_remove h hk rfl ?_ ?_ ?_ ?_ ?_ ?_
  all_goals simp only [hself]
  · refine h.stackRoot.congr fun b hb hne => ⟨And.left, fun hmem => ⟨hmem, ?_⟩⟩
    exact fun heq => h.apart.root_utl th e he hused ⟨b, hb, hne, heq.symm⟩
  · refine h.irqStackRoot.congr fun b hb hne => ⟨And.left, fun hmem => ⟨hmem, ?_⟩⟩
    exact fun heq => h.apart.irq_utl th e he hused ⟨b, hb, hne, heq.symm⟩
  · exact fun th' => base_utilStackFindEntry_setUtlUsed ..
  · intro th' e' he'
    rw [hfind] at he'
    split_ifs at he' with hth
    · subst hth
      rw [show utilStackFindEntry th' s.utlStackRoot = some e from he] at he'
      obtain rfl := Option.some.inj he'
      exact iff_of_false Bool.false_ne_true fun hne => hne.2 rfl
    · refine (h.utlStackRoot th' e' he').trans ⟨fun hmem => ⟨hmem, ?_⟩, And.left⟩
      exact fun heq => hth (congrArg StackOwner.thread heq)

/-! ### The runs -/

variable {c : StackConfig}

/-- A stack of the list of tasks is handed out for `LXA_StackAlloc`, and for `LXA_UtilStackAlloc`
to a thread without an entry. -/
theorem from_of_origin {s : Stacks} {x : StackOwner} (h : s.Origin x) (hk : x.kind = .util)
    (hx : ∀ e, utilStackFindEntry x.thread s.utlStackRoot = some e →
      x.addr ≠ e.base + stackCalc) : From s.stackRoot x.addr := by
  obtain ⟨kind, th, addr⟩ := x
  obtain rfl : kind = .util := hk
  rcases h with hf | ⟨b, hb, heq⟩
  · exact hf
  · obtain ⟨e, he, rfl⟩ := Option.map_eq_some_iff.1 hb
    exact absurd heq (hx e he)

theorem stacksInv_alloc {s : Stacks} (h : StacksInv s) {kind : StackKind} {th : ThreadId}
    {mem : StackMemory} (hmem : mem.base = 0 ∨ s.Unused mem.base)
    (hg : Own s (.alloc kind th mem)) :
    StacksInv ((s.alloc th mem kind).1.handOut kind th (s.alloc th mem kind).2) := by
  cases kind with
  | task => exact stacksInv_stackAlloc h hmem (.inl rfl)
  | irq => exact stacksInv_irqStackAlloc h hmem th
  | util =>
    simp only [alloc, utilStackAlloc]
    cases he : utilStackFindEntry th s.utlStackRoot with
    | none =>
      refine stacksInv_stackAlloc h hmem (.inr ⟨rfl, fun e he' => ?_⟩)
      exact absurd (he.symm.trans he') (Option.some_ne_none e).symm
    | some e =>
      by_cases hu : e.used = true
      · simp only [hu]
        refine stacksInv_stackAlloc h hmem (.inr ⟨rfl, fun e' he' => ?_⟩)
        exact Option.some.inj (he.symm.trans he') ▸ hu
      · simp only [hu]
        exact stacksInv_setUtlUsed h he (hg e he (Bool.eq_false_of_not_eq_true hu))

theorem stacksInv_free {s : Stacks} (h : StacksInv s) {k : ℕ} {x : StackOwner}
    (hk : s.live[k]? = some x) (hg : Own s (.free k)) :
    StacksInv { s.free x.thread x.addr x.kind with live := s.live.eraseIdx k } := by
  have horigin := h.origin x (List.mem_of_getElem? hk)
  cases hkind : x.kind with
  | task =>
    rw [Origin, hkind] at horigin
    exact stacksInv_stackFree h hk horigin fun hutil => nomatch hkind.symm.trans hutil
  | irq =>
    rw [Origin, hkind] at horigin
    exact stacksInv_irqStackFree h hk horigin hkind
  | util =>
    cases he : utilStackFindEntry x.thread s.utlStackRoot with
    | none =>
      have hfrom := from_of_origin horigin hkind fun e he' => nomatch he.symm.trans he'
      have hself : s.free x.thread x.addr .util = s.stackFree x.addr := by
        simp only [free, utilStackFree, he]
      rw [hself]
      exact stacksInv_stackFree h hk hfrom fun _ => he
    | some e => exact stacksInv_utilStackFree h hk hkind he (hg x hk hkind e he)

theorem stacksInv_step {s s' : Stacks} {a : StackAct} (h : StacksInv s) (hg : Own s a)
    (hst : (machine c).step s a = some s') : StacksInv s' := by
  change step s a = some s' at hst
  cases a with
  | alloc kind th mem =>
    simp only [step] at hst
    split_ifs at hst with hmem
    cases hst
    exact stacksInv_alloc h hmem hg
  | free k =>
    simp only [step] at hst
    split at hst <;> cases hst
    exact stacksInv_free h ‹_› hg

/-- If a stack that was not handed out is, and the list still knows who has its stacks, then the
stack is none of the list. -/
theorem not_from_of_used {A A' : ULONG → Prop} {l : List PddStack} {a : ULONG} (hl : PoolOk A l)
    (hl' : ∀ p ∈ l, p.used = true ↔ p.base ≠ 0 ∧ A' (p.base + stackCalc)) (hnot : ¬ A a)
    (hnew : A' a) : ¬ From l a := by
  rintro ⟨b, hb, hne, rfl⟩
  obtain ⟨p, hp, rfl⟩ := List.mem_map.1 hb
  have hused : p.used = true := (hl' p hp).2 ⟨hne, hnew⟩
  exact hnot ((hl.entry hp).2.1 hused).2

/-- A thread that gets its own stack while somebody else has one there, or a list. -/
theorem not_exclusive_alloc {s : Stacks} (h : StacksInv s) {th : ThreadId} {mem : StackMemory}
    {e : UtlStack} (he : utilStackFindEntry th s.utlStackRoot = some e) (hu : e.used = false)
    (hno : ¬ s.Vacant (e.base + stackCalc)) :
    ¬ Exclusive ((s.alloc th mem .util).1.handOut .util th (s.alloc th mem .util).2) := by
  have hself : s.alloc th mem .util = ({ s with
      utlStackRoot := setUtlUsed th true s.utlStackRoot }, e.base + stackCalc) := by
    simp only [alloc, utilStackAlloc, he, hu, Bool.false_eq_true, ↓reduceIte]
  rw [hself]
  intro hex
  by_cases h0 : e.base + stackCalc = 0
  · -- the stack counts as used, but the thread believes that it got none
    have hfind := utilStackFindEntry_setUtlUsed th true s.utlStackRoot th
    rw [if_pos rfl, he] at hfind
    rw [handOut, if_pos h0] at hex
    have hlive := hex.utlStackRoot th { e with used := true } hfind
    have := (h.utlStackRoot th e he).2 (hlive.1 rfl)
    exact Bool.false_ne_true (hu.symm.trans this)
  · rw [handOut, if_neg h0] at hex
    have hnodup := hex.nodup
    rw [addrs, List.map_append] at hnodup
    have hnot : e.base + stackCalc ∉ s.addrs := fun hmem =>
      (List.disjoint_of_nodup_append hnodup) hmem List.mem_cons_self
    have hnew : e.base + stackCalc ∈
        addrs { s with live := s.live ++ [⟨.util, th, e.base + stackCalc⟩] } := by
      rw [addrs, List.map_append]
      exact List.mem_append_right _ List.mem_cons_self
    exact hno ⟨h0, hnot, not_from_of_used h.stackRoot hex.stackRoot hnot hnew,
      not_from_of_used h.irqStackRoot hex.irqStackRoot hnot hnew⟩

/-- A stack of the list of tasks that a thread with an entry frees stays in use. -/
theorem not_exclusive_free {s : Stacks} (h : StacksInv s) {k : ℕ} {x : StackOwner}
    (hk : s.live[k]? = some x) (hkind : x.kind = .util) {e : UtlStack}
    (he : utilStackFindEntry x.thread s.utlStackRoot = some e)
    (hx : x.addr ≠ e.base + stackCalc) :
    ¬ Exclusive { s.free x.thread x.addr x.kind with live := s.live.eraseIdx k } := by
  have hmem := List.mem_of_getElem? hk
  have hfrom : From s.stackRoot x.addr := by
    refine from_of_origin (h.origin x hmem) hkind fun e' he' => ?_
    obtain rfl := Option.some.inj (he.symm.trans he')
    exact hx
  obtain ⟨b, hb, hne, haddr⟩ := hfrom
  obtain ⟨p, hp, rfl⟩ := List.mem_map.1 hb
  have hused : p.used = true :=
    (h.stackRoot.entry hp).2.2 ⟨hne, haddr ▸ List.mem_map_of_mem hmem⟩
  -- the address is reduced twice
  have hself : s.free x.thread x.addr x.kind =
      { s with stackRoot := markUnused (p.base - stackCalc) s.stackRoot } := by
    have hbase : e.base ≠ p.base := fun heq => hx (by rw [haddr, heq])
    rw [haddr, hkind]
    simp only [free, utilStackFree, he, add_sub_cancel_right, ne_eq, hbase, not_false_eq_true,
      ↓reduceIte, stackFree]
  have hp' : p ∈ markUnused (p.base - stackCalc) s.stackRoot := by
    refine mem_markUnused hp fun heq => ?_
    have : (stackCalc : ULONG) = 0 := sub_eq_self.1 heq.symm
    exact absurd this (by decide)
  rw [hself]
  intro hex
  have := ((hex.stackRoot p hp').1 hused).2
  exact ((Pick.mem_map_iff hk h.nodup).1 this).2 haddr.symm

theorem own_of_exclusive {s s' : Stacks} {a : StackAct} (h : StacksInv s)
    (hst : (machine c).step s a = some s') (hex : Exclusive s') : Own s a := by
  change step s a = some s' at hst
  cases a with
  | alloc kind th mem =>
    simp only [step] at hst
    split_ifs at hst with hmem
    cases hst
    cases kind with
    | task => trivial
    | irq => trivial
    | util =>
      intro e he hu
      by_contra hno
      exact not_exclusive_alloc h he hu hno hex
  | free k =>
    simp only [step] at hst
    split at hst <;> cases hst
    rename_i x hk
    intro x' hk' hkind e he
    obtain rfl := Option.some.inj (hk.symm.trans hk')
    by_contra hx
    exact not_exclusive_free h hk hkind he hx hex

theorem stacksInv_init (c : StackConfig) : StacksInv (machine c).init := by
  have hirq : ∀ l : List ULONG, (∀ b ∈ l, IsStackBase b) → l.Nodup →
      PoolOk (· ∈ ([] : List ULONG)) (l.map fun base => ⟨base, false⟩) := by
    intro l
    induction l with
    | nil => exact fun _ _ => trivial
    | cons b rest ih =>
      intro hb hnodup
      obtain ⟨hnot, hrest⟩ := List.nodup_cons.1 hnodup
      refine ⟨⟨.inr (hb b List.mem_cons_self), iff_of_false Bool.false_ne_true nofun⟩, ?_, ?_⟩
      · intro _ hmem
        rw [List.map_map] at hmem
        obtain ⟨b', hb', rfl⟩ := List.mem_map.1 hmem
        exact hnot hb'
      · exact ih (fun b' hb' => hb b' (List.mem_cons_of_mem _ hb')) hrest
  have hunused : ∀ th e, utilStackFindEntry th c.utl = some e → ¬ e.used = true := by
    intro th e he
    rw [c.utl_unused e (mem_of_utilStackFindEntry he)]
    exact Bool.false_ne_true
  refine ⟨.nil, trivial, hirq _ c.irq_base c.irq_nodup, ?_, ⟨nofun, ?_, ?_⟩, nofun⟩
  · exact fun th e he => iff_of_false (hunused th e he) nofun
  · exact fun th e he hu => absurd hu (hunused th e he)
  · exact fun th e he hu => absurd hu (hunused th e he)

/-- **Every stack has one owner** along a run exactly if no thread with a `UTLStack` entry frees a
stack of the list of tasks by `LXA_UtilStackFree`, and no thread gets its own stack while somebody
else has one at the same place, or a list. -/
theorem always_exclusive_iff {as : List StackAct} {s : Stacks}
    (h : (machine c).exec (machine c).init as = some s) :
    (machine c).Always Exclusive (machine c).init as ↔ (machine c).Along Own (machine c).init as :=
  Machine.always_iff_along (fun _ => StacksInv.exclusive) (fun _ _ _ => stacksInv_step)
    (fun _ _ _ => own_of_exclusive) (stacksInv_init c) h

/-- One thread with an own stack at `0x100000`. -/
def sampleConfig : StackConfig where
  irq := []
  utl := [⟨0x100000, false, ⟨1, 1⟩⟩]
  irq_base := nofun
  irq_nodup := .nil
  utl_unused := by decide

/-- Another thread has a stack.  The first one gets its own one and, nested, a second one just above
that of the other thread, and frees it.  Then a third thread gets a stack. -/
def neighbour : List StackAct :=
  [.alloc .task ⟨2, 1⟩ ⟨true, 0x200000⟩, .alloc .util ⟨1, 1⟩ ⟨true, 0⟩,
    .alloc .util ⟨1, 1⟩ ⟨true, 0x202000⟩, .free 2, .alloc .task ⟨3, 1⟩ ⟨true, 0⟩]

/-- The third thread gets the stack of the second. -/
theorem not_exclusive_neighbour : ∃ s,
    (machine sampleConfig).exec (machine sampleConfig).init neighbour = some s ∧
    s.live = [⟨.task, ⟨2, 1⟩, 0x202000⟩, ⟨.util, ⟨1, 1⟩, 0x102000⟩, ⟨.task, ⟨3, 1⟩, 0x202000⟩] ∧
    ¬ s.Exclusive ∧
    ¬ (machine sampleConfig).Always Exclusive (machine sampleConfig).init neighbour := by
  have h : ∃ s, (machine sampleConfig).exec (machine sampleConfig).init neighbour = some s ∧
      s.live = [⟨.task, ⟨2, 1⟩, 0x202000⟩, ⟨.util, ⟨1, 1⟩, 0x102000⟩,
        ⟨.task, ⟨3, 1⟩, 0x202000⟩] := ⟨_, rfl, rfl⟩
  obtain ⟨s, hrun, hlive⟩ := h
  have hno : ¬ s.Exclusive := by
    intro hex
    have hnodup := hex.nodup
    rw [addrs, hlive] at hnodup
    exact absurd hnodup (by decide)
  exact ⟨s, hrun, hlive, hno, fun hal => hno (hal.last hrun)⟩

/-- A thread uses its own stack, another one has a stack of the list, and both give them back. -/
def givenBack : List StackAct :=
  [.alloc .util ⟨1, 1⟩ ⟨true, 0⟩, .alloc .util ⟨2, 1⟩ ⟨true, 0x200000⟩, .free 1, .free 0,
    .alloc .util ⟨1, 1⟩ ⟨true, 0⟩]

/-- `always_exclusive_iff` on this run. -/
theorem always_exclusive_givenBack :
    (machine sampleConfig).Always Exclusive (machine sampleConfig).init givenBack ↔
      (machine sampleConfig).Along Own (machine sampleConfig).init givenBack :=
  always_exclusive_iff rfl

end Stacks

end LxApi32
