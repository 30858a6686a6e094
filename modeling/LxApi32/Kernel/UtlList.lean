import LxApi32.Daemon.Packet
import LxApi32.Kernel.Stacks
import LxApi32.Lib.FirstMatch
import LxApi32.Lib.Machine
import LxApi32.Lxafs.HardLink

/-!
# The list of the threads' own stacks

`lx_UtlStackRoot` is a singly linked list of `UTLStack` entries, one for a process id and a thread
id.  `LX_set_ti_for_pidtid` puts an entry in front, `LX_unset_ti_for_pidtid` takes one out, both
under `lx_utlstack_lock`.

The set links the new entry to the successor of the first one, not to the first one itself.  The
unset looks for the thread id below the one it is given, and it never advances `pp`, so that
everything in front of the entry is unlinked too.

* `UtlList.always_agrees_iff` : along every sequence of calls the list is the map from the pairs
  that are set to their stacks exactly if each set that succeeds finds the list empty, and each
  unset finds no entry at all, or, for the thread id `0`, its own one in front.
-/

namespace LxApi32

/-- `LX_find_utlstack_pidtid` -/
def findUtlstackPidtid (th : ThreadId) (root : List UtlStack) : Option UtlStack :=
  root.find? fun p => p.thread = th

/-- `LX_find_utlstack_ti` -/
def findUtlstackTi (ti : ULONG) (root : List UtlStack) : Option UtlStack :=
  root.find? fun p => p.base = ti

/-- `LX_set_ti_for_pidtid`: the list afterwards and what it returns; `pp` tells whether there is
memory for the entry. -/
def setTiForPidtid (ti : ULONG) (th : ThreadId) (pp : Bool) (root : List UtlStack) :
    List UtlStack × ULONG :=
  if pp = false then (root, negENOMEM)
  else match findUtlstackPidtid th root with
    | some _ => (root, negEBUSY)
    | none =>
      -- `pp->next=lx_UtlStackRoot ? lx_UtlStackRoot->next : 0`
      (⟨ti, false, th⟩ :: root.tail, 0)

/-- The loop of `LX_unset_ti_for_pidtid` at `p`, with the entries up to `pp` if `pp` is not null.
The source does not set `pp` in the loop. -/
def unsetLoop (th : ThreadId) (root : List UtlStack) (pp : Option (List UtlStack)) :
    List UtlStack → List UtlStack
  | [] => root
  | p :: next =>
    if p.thread = th then
      match pp with
      | some front => front ++ next
      | none => next
    else unsetLoop th root pp next

/-- `if(tid) tid--` -/
def lowerTid (th : ThreadId) : ThreadId :=
  if th.tid ≠ 0 then { th with tid := th.tid - 1 } else th

/-- `LX_unset_ti_for_pidtid` -/
def unsetTiForPidtid (th : ThreadId) (root : List UtlStack) : List UtlStack :=
  unsetLoop (lowerTid th) root none root

/-- A call. -/
inductive UtlAct
  /-- `LX_set_ti_for_pidtid` -/
  | set (ti : ULONG) (th : ThreadId) (pp : Bool)
  /-- `LX_unset_ti_for_pidtid` -/
  | unset (th : ThreadId)
  deriving DecidableEq, Repr

/-- The list. -/
structure UtlList where
  /-- `lx_UtlStackRoot` -/
  root : List UtlStack
  /-- The entries that are set and not unset, a history variable. -/
  entries : List UtlStack
  deriving DecidableEq, Repr

namespace UtlList

/-- The entries that are set and not unset after a call that has returned `ret`. -/
def record (entries : List UtlStack) (ret : ULONG) : UtlAct → List UtlStack
  | .set ti th _ => if ret = 0 then ⟨ti, false, th⟩ :: entries else entries
  | .unset th => entries.filter fun e => e.thread ≠ th

/-- A call: the list afterwards and what it returns. -/
def call (root : List UtlStack) : UtlAct → List UtlStack × ULONG
  | .set ti th pp => setTiForPidtid ti th pp root
  | .unset th => (unsetTiForPidtid th root, 0)

/-- The step function. -/
def step (s : UtlList) (a : UtlAct) : Option UtlList :=
  some ⟨(call s.root a).1, record s.entries (call s.root a).2 a⟩

/-- The machine of the list that has the entries `l` at the beginning. -/
def machine (l : List UtlStack) : Machine UtlList UtlAct := ⟨⟨l, l⟩, step⟩

/-- The list has one entry for each pair that is set and not unset, and no other ones, and so the
two functions find them. -/
structure Agrees (s : UtlList) : Prop where
  /-- A pair has one entry. -/
  nodup : (s.root.map UtlStack.thread).Nodup
  /-- The list has the entries that are set. -/
  mem : ∀ e, e ∈ s.root ↔ e ∈ s.entries
  /-- `LX_find_utlstack_pidtid` -/
  pidtid : ∀ th e, findUtlstackPidtid th s.root = some e ↔ e ∈ s.entries ∧ e.thread = th
  /-- `LX_find_utlstack_ti` -/
  ti : ∀ b, match findUtlstackTi b s.root with
    | some e => e ∈ s.entries ∧ e.base = b
    | none => ∀ e ∈ s.entries, e.base ≠ b

/-- A set succeeds on the empty list only.  An unset finds neither the entry of its pair nor the
one of the thread id below; for the thread id `0` it finds it in front. -/
def Harmless (s : UtlList) : UtlAct → Prop
  | .set _ th pp => pp = true → (∀ e ∈ s.root, e.thread ≠ th) → s.root = []
  | .unset th =>
    if th.tid = 0 then ∀ e ∈ s.root.tail, e.thread ≠ th
    else ∀ e ∈ s.root, e.thread ≠ th ∧ e.thread ≠ lowerTid th

instance (s : UtlList) : DecidablePred s.Harmless := fun
  | .set _ th pp =>
    inferInstanceAs (Decidable (pp = true → (∀ e ∈ s.root, e.thread ≠ th) → s.root = []))
  | .unset th => inferInstanceAs (Decidable (if th.tid = 0 then _ else _))

/-! ### The two functions that search -/

variable {s : UtlList} {th : ThreadId} {ti : ULONG} {pp : Bool} {l root : List UtlStack}

theorem findUtlstackPidtid_eq_none :
    findUtlstackPidtid th root = none ↔ ∀ e ∈ root, e.thread ≠ th := by
  simp [findUtlstackPidtid]

/-- In a list with one entry for a pair, the first entry of a pair is its entry. -/
theorem findUtlstackPidtid_eq_some (hnd : (root.map UtlStack.thread).Nodup) {e : UtlStack} :
    findUtlstackPidtid th root = some e ↔ e ∈ root ∧ e.thread = th :=
  FirstMatch.find?_key_iff hnd

theorem findUtlstackTi_eq_none : findUtlstackTi ti root = none ↔ ∀ e ∈ root, e.base ≠ ti := by
  simp [findUtlstackTi]

theorem findUtlstackTi_eq_some {e : UtlStack} (h : findUtlstackTi ti root = some e) :
    e ∈ root ∧ e.base = ti :=
  ⟨List.mem_of_find?_eq_some h, by simpa using List.find?_some h⟩

/-- The two functions find what the list has. -/
theorem agrees_of_mem (hnd : (s.root.map UtlStack.thread).Nodup)
    (hmem : ∀ e, e ∈ s.root ↔ e ∈ s.entries) : s.Agrees where
  nodup := hnd
  mem := hmem
  pidtid th e := by rw [findUtlstackPidtid_eq_some hnd, hmem]
  ti b := by
    cases h : findUtlstackTi b s.root with
    | none => exact fun e he => findUtlstackTi_eq_none.1 h e ((hmem e).2 he)
    | some e => exact (findUtlstackTi_eq_some h).imp_left (hmem e).1

/-! ### What the calls do -/

theorem setTiForPidtid_fail (ti : ULONG) (h : pp = true → ∃ e ∈ root, e.thread = th) :
    (setTiForPidtid ti th pp root).1 = root ∧ (setTiForPidtid ti th pp root).2 ≠ 0 := by
  cases pp with
  | false =>
    show root = root ∧ negENOMEM ≠ 0
    exact ⟨rfl, by decide⟩
  | true =>
    obtain ⟨e, he, hth⟩ := h rfl
    cases hfind : findUtlstackPidtid th root with
    | some e' =>
      simp only [setTiForPidtid, hfind]
      show root = root ∧ negEBUSY ≠ 0
      exact ⟨rfl, by decide⟩
    | none => exact absurd hth (findUtlstackPidtid_eq_none.1 hfind e he)

theorem setTiForPidtid_success (h : ∀ e ∈ root, e.thread ≠ th) :
    setTiForPidtid ti th true root = (⟨ti, false, th⟩ :: root.tail, 0) := by
  simp [setTiForPidtid, findUtlstackPidtid_eq_none.2 h]

theorem unsetLoop_of_forall_ne (h : ∀ e ∈ l, e.thread ≠ th) : unsetLoop th root none l = root := by
  induction l with
  | nil => rfl
  | cons p next ih =>
    rw [unsetLoop, if_neg (h p List.mem_cons_self)]
    exact ih fun e he => h e (List.mem_cons_of_mem _ he)

/-- Everything in front of the entry is lost with it. -/
theorem unsetLoop_append {front next : List UtlStack} {p : UtlStack} (hp : p.thread = th)
    (h : ∀ e ∈ front, e.thread ≠ th) : unsetLoop th root none (front ++ p :: next) = next := by
  induction front with
  | nil => rw [List.nil_append, unsetLoop, if_pos hp]
  | cons q front ih =>
    rw [List.cons_append, unsetLoop, if_neg (h q List.mem_cons_self)]
    exact ih fun e he => h e (List.mem_cons_of_mem _ he)

theorem unsetTiForPidtid_of_forall_ne (h : ∀ e ∈ root, e.thread ≠ lowerTid th) :
    unsetTiForPidtid th root = root :=
  unsetLoop_of_forall_ne h

theorem lowerTid_zero (h : th.tid = 0) : lowerTid th = th := if_neg (not_not.2 h)

theorem lowerTid_ne (h : th.tid ≠ 0) : lowerTid th ≠ th := by
  intro heq
  have htid : th.tid - 1 = th.tid := by
    simpa only [lowerTid, if_pos h] using congrArg ThreadId.tid heq
  bv_omega

/-- The entries in front of the first one of a pair, that entry, and those behind it. -/
theorem exists_split (h : ∃ e ∈ l, e.thread = th) : ∃ front p next,
    l = front ++ p :: next ∧ p.thread = th ∧ ∀ e ∈ front, e.thread ≠ th := by
  induction l with
  | nil => obtain ⟨e, he, -⟩ := h; cases he
  | cons q l ih =>
    by_cases hq : q.thread = th
    · exact ⟨[], q, l, rfl, hq, nofun⟩
    · have h' : ∃ e ∈ l, e.thread = th := by
        obtain ⟨e, he, hth⟩ := h
        rcases List.mem_cons.1 he with rfl | he
        · exact absurd hth hq
        · exact ⟨e, he, hth⟩
      obtain ⟨front, p, next, rfl, hp, hfront⟩ := ih h'
      exact ⟨q :: front, p, next, rfl, hp, List.forall_mem_cons.2 ⟨hq, hfront⟩⟩

theorem mem_record_unset {entries : List UtlStack} {e : UtlStack} (ret : ULONG) :
    e ∈ record entries ret (.unset th) ↔ e ∈ entries ∧ e.thread ≠ th := by
  simp [record]

/-! ### What a call keeps -/

theorem step_set_fail (ti : ULONG) (h : pp = true → ∃ e ∈ s.root, e.thread = th) :
    step s (.set ti th pp) = some s := by
  obtain ⟨hroot, hret⟩ := setTiForPidtid_fail ti h
  have hrec : record s.entries (setTiForPidtid ti th pp s.root).2 (.set ti th pp) = s.entries :=
    if_neg hret
  simp only [step, call, hroot, hrec]

theorem step_set_success (h : ∀ e ∈ s.root, e.thread ≠ th) : step s (.set ti th true) =
    some ⟨⟨ti, false, th⟩ :: s.root.tail, ⟨ti, false, th⟩ :: s.entries⟩ := by
  simp only [step, call, record, setTiForPidtid_success h, if_true]

theorem step_unset : step s (.unset th) =
    some ⟨unsetTiForPidtid th s.root, s.entries.filter fun e => e.thread ≠ th⟩ :=
  rfl

/-- A set succeeds, or there is no memory, or the pair is present. -/
theorem set_cases (root : List UtlStack) (th : ThreadId) (pp : Bool) :
    (pp = true ∧ ∀ e ∈ root, e.thread ≠ th) ∨ (pp = true → ∃ e ∈ root, e.thread = th) := by
  by_cases h : ∃ e ∈ root, e.thread = th
  · exact .inr fun _ => h
  · cases pp with
    | false => exact .inr nofun
    | true => exact .inl ⟨rfl, fun e he hth => h ⟨e, he, hth⟩⟩

/-- An unset that leaves the list alone keeps the map if the pair is not set. -/
theorem agrees_unset_of_keep (hs : s.Agrees) (hkeep : unsetTiForPidtid th s.root = s.root)
    (hnone : ∀ e ∈ s.root, e.thread ≠ th) :
    Agrees ⟨unsetTiForPidtid th s.root, s.entries.filter fun e => e.thread ≠ th⟩ := by
  refine agrees_of_mem (by rw [hkeep]; exact hs.nodup) fun e => ?_
  show e ∈ unsetTiForPidtid th s.root ↔ e ∈ s.entries.filter _
  rw [hkeep, hs.mem, List.mem_filter]
  exact ⟨fun he => ⟨he, by simpa using hnone e ((hs.mem e).2 he)⟩, And.left⟩

/-- An unset of the first entry keeps it if the others are of other pairs. -/
theorem agrees_unset_of_head (hs : s.Agrees) {p : UtlStack} {next : List UtlStack}
    (hroot : s.root = p :: next) (hp : p.thread = th) (htid : th.tid = 0)
    (hother : ∀ e ∈ next, e.thread ≠ th) :
    Agrees ⟨unsetTiForPidtid th s.root, s.entries.filter fun e => e.thread ≠ th⟩ := by
  have hcut : unsetTiForPidtid th s.root = next := by
    rw [unsetTiForPidtid, lowerTid_zero htid, hroot]
    exact if_pos hp
  have hnd := hs.nodup
  rw [hroot, List.map_cons, List.nodup_cons] at hnd
  refine agrees_of_mem (hcut ▸ hnd.2) fun e => ?_
  show e ∈ unsetTiForPidtid th s.root ↔ e ∈ s.entries.filter _
  rw [hcut, List.mem_filter, ← hs.mem, hroot, List.mem_cons]
  simp only [ne_eq, decide_not, Bool.not_eq_true', decide_eq_false_iff_not]
  constructor
  · exact fun he => ⟨.inr he, hother e he⟩
  · rintro ⟨rfl | he, hth⟩
    · exact absurd hp hth
    · exact he

/-- Harmless calls keep the map. -/
theorem agrees_step {s s' : UtlList} {a : UtlAct} (hs : s.Agrees) (ha : s.Harmless a)
    (h : step s a = some s') : s'.Agrees := by
  cases a with
  | set ti th pp =>
    rcases set_cases s.root th pp with ⟨rfl, hnew⟩ | hfail
    · have hnil : s.root = [] := ha rfl hnew
      rw [step_set_success hnew] at h
      cases h
      have hentries : s.entries = [] :=
        List.eq_nil_iff_forall_not_mem.2 fun e he => by simpa [hnil] using (hs.mem e).2 he
      exact agrees_of_mem (by simp [hnil]) (by simp [hnil, hentries])
    · rw [step_set_fail ti hfail] at h
      cases h
      exact hs
  | unset th =>
    rw [step_unset] at h
    cases h
    simp only [Harmless] at ha
    by_cases htid : th.tid = 0
    · rw [if_pos htid] at ha
      cases hroot : s.root with
      | nil =>
        rw [← hroot]
        exact agrees_unset_of_keep hs (by rw [hroot]; rfl) (by rw [hroot]; nofun)
      | cons p next =>
        rw [hroot, List.tail_cons] at ha
        rw [← hroot]
        by_cases hp : p.thread = th
        · exact agrees_unset_of_head hs hroot hp htid ha
        · have hnone : ∀ e ∈ s.root, e.thread ≠ th := hroot ▸ List.forall_mem_cons.2 ⟨hp, ha⟩
          have hlow : ∀ e ∈ s.root, e.thread ≠ lowerTid th := by rwa [lowerTid_zero htid]
          exact agrees_unset_of_keep hs (unsetTiForPidtid_of_forall_ne hlow) hnone
    · rw [if_neg htid] at ha
      exact agrees_unset_of_keep hs (unsetTiForPidtid_of_forall_ne fun e he => (ha e he).2)
        fun e he => (ha e he).1

/-- A set that keeps the map finds an empty list: the first entry of another is gone. -/
theorem root_eq_nil_of_agrees (hs : s.Agrees) (hnew : ∀ e ∈ s.root, e.thread ≠ th)
    (hs' : Agrees ⟨⟨ti, false, th⟩ :: s.root.tail, ⟨ti, false, th⟩ :: s.entries⟩) :
    s.root = [] := by
  cases hroot : s.root with
  | nil => rfl
  | cons p next =>
    have hp : p ∈ s.root := hroot ▸ List.mem_cons_self
    have hmem : p ∈ (⟨ti, false, th⟩ : UtlStack) :: s.root.tail :=
      (hs'.mem p).2 (List.mem_cons_of_mem _ ((hs.mem p).1 hp))
    have hnd := hs.nodup
    rw [hroot, List.map_cons, List.nodup_cons] at hnd
    rw [hroot, List.tail_cons] at hmem
    rcases List.mem_cons.1 hmem with rfl | hnext
    · exact absurd rfl (hnew _ hp)
    · exact absurd (List.mem_map_of_mem hnext) hnd.1

/-- If an unset takes out what it should, the first entry that its loop finds has nothing in front
of it that should stay. -/
theorem front_of_unset (hs : s.Agrees)
    (hmem : ∀ e, e ∈ unsetTiForPidtid th s.root ↔ e ∈ s.root ∧ e.thread ≠ th)
    {front next : List UtlStack} {p : UtlStack} (hroot : s.root = front ++ p :: next)
    (hp : p.thread = lowerTid th) (hfront : ∀ e ∈ front, e.thread ≠ lowerTid th) :
    ∀ e ∈ front ++ [p], e.thread = th := by
  have hcut : unsetTiForPidtid th s.root = next := by
    rw [unsetTiForPidtid, hroot]
    exact unsetLoop_append hp hfront
  have hnd := hs.nodup
  rw [hroot, List.append_cons, List.map_append, List.nodup_append] at hnd
  intro e he
  by_contra hth
  have hnext : e ∈ next := by
    rw [← hcut, hmem, hroot, List.append_cons]
    exact ⟨List.mem_append_left _ he, hth⟩
  exact hnd.2.2 _ (List.mem_map_of_mem he) _ (List.mem_map_of_mem hnext) rfl

/-- After any other call the list has lost an entry, or kept one that is not set. -/
theorem harmless_of_agrees {s s' : UtlList} {a : UtlAct} (hs : s.Agrees) (h : step s a = some s')
    (hs' : s'.Agrees) : s.Harmless a := by
  cases a with
  | set ti th pp =>
    intro hpp hnew
    subst hpp
    rw [step_set_success hnew] at h
    cases h
    exact root_eq_nil_of_agrees hs hnew hs'
  | unset th =>
    rw [step_unset] at h
    cases h
    have hmem : ∀ e, e ∈ unsetTiForPidtid th s.root ↔ e ∈ s.root ∧ e.thread ≠ th := by
      intro e
      rw [hs.mem, ← mem_record_unset 0]
      exact hs'.mem e
    simp only [Harmless]
    by_cases htid : th.tid = 0
    · rw [if_pos htid]
      intro e he hth
      obtain ⟨front, p, next, hroot, hp, hfront⟩ :=
        exists_split ⟨e, List.mem_of_mem_tail he, hth⟩
      rw [← lowerTid_zero htid] at hp hfront
      have hall := front_of_unset hs hmem hroot hp hfront
      cases front with
      | nil =>
        -- two entries of one pair
        have hnd := hs.nodup
        rw [hroot, List.nil_append, List.map_cons, List.nodup_cons] at hnd
        rw [hroot, List.nil_append, List.tail_cons] at he
        rw [lowerTid_zero htid, ← hth] at hp
        exact hnd.1 (hp ▸ List.mem_map_of_mem he)
      | cons q front =>
        refine hfront q List.mem_cons_self ?_
        rw [lowerTid_zero htid]
        exact hall q List.mem_cons_self
    · rw [if_neg htid]
      have hlow : ∀ e ∈ s.root, e.thread ≠ lowerTid th := by
        intro e he hth
        obtain ⟨front, p, next, hroot, hp, hfront⟩ := exists_split ⟨e, he, hth⟩
        have hall := front_of_unset hs hmem hroot hp hfront
        exact lowerTid_ne htid (hp.symm.trans (hall p (List.mem_append_right _ (by simp))))
      intro e he
      refine ⟨?_, hlow e he⟩
      rw [← unsetTiForPidtid_of_forall_ne hlow] at he
      exact ((hmem e).1 he).2

/-- **The exact condition.**  Along a sequence of calls the list always has exactly the entries
that are set and not unset if and only if all calls are harmless. -/
theorem always_agrees_iff (hl : (l.map UtlStack.thread).Nodup) (as : List UtlAct) :
    (machine l).Always Agrees (machine l).init as ↔
      (machine l).Along Harmless (machine l).init as := by
  obtain ⟨s', h⟩ := (machine l).exists_exec (fun _ _ => ⟨_, rfl⟩) (machine l).init as
  have h₀ : (machine l).init.Agrees := agrees_of_mem hl fun _ => Iff.rfl
  exact Machine.always_iff_along (fun _ => id) (fun _ _ _ => agrees_step)
    (fun _ _ _ => harmless_of_agrees) h₀ h

/-- The own stacks of two threads: the second set on an empty list is harmless after an unset. -/
theorem always_agrees_set_unset_set :
    (machine []).Always Agrees (machine []).init
      [.set 0x10000 ⟨7, 0⟩ true, .unset ⟨7, 0⟩, .set 0x20000 ⟨8, 1⟩ true] :=
  (always_agrees_iff (l := []) List.nodup_nil _).2
    (Machine.along_of_check (g := fun s a => decide (s.Harmless a)) (by simp) (by decide))

/-- Two sets are enough to lose an entry. -/
theorem not_always_agrees_two_sets :
    ¬ (machine []).Always Agrees (machine []).init
      [.set 0x10000 ⟨7, 1⟩ true, .set 0x20000 ⟨8, 1⟩ true] := by
  intro h
  have hrun : (machine []).exec (machine []).init
      [.set 0x10000 ⟨7, 1⟩ true, .set 0x20000 ⟨8, 1⟩ true] =
      some ⟨[⟨0x20000, false, ⟨8, 1⟩⟩], [⟨0x20000, false, ⟨8, 1⟩⟩, ⟨0x10000, false, ⟨7, 1⟩⟩]⟩ := by
    decide
  exact absurd (((h.last hrun).mem ⟨0x10000, false, ⟨7, 1⟩⟩).2 (by decide)) (by decide)

end UtlList

end LxApi32
