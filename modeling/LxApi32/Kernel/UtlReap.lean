import LxApi32.Daemon.Packet
import LxApi32.Lib.Issued
import LxApi32.Lib.Machine
import Mathlib.Data.List.Nodup

/-!
# Reaping the threads' own stacks

`LX_check_utl_freeme` goes through `lx_UtlStackRoot` for entries that are to be freed and are not in
use.  It takes the first one out, frees its stack and the entry without `lx_utlstack_lock`, and
begins again, as the list may be another one by then.

* `UtlReap.reaped_of_exec` : whatever other threads do to the list in the meantime, it frees what it
  takes out, once and afterwards, takes out only what is to be freed, and comes to an end.

What happens under the lock is one step.  An entry has a number that no other entry ever has, so
that the memory of an entry may be used again for a new one.
-/

namespace LxApi32

/-- `UTLSTACK_FLAG_USED` -/
def utlstackFlagUsed : ULONG := 1

/-- `UTLSTACK_FLAG_FREEME` -/
def utlstackFlagFreeme : ULONG := 16

/-- `UTLStack` -/
structure UtlEntry where
  /-- Which entry it is. -/
  id : ℕ
  /-- `base` -/
  base : ULONG
  /-- `flags` -/
  flags : ULONG
  deriving DecidableEq, Repr

/-- What is given to `kfree`. -/
inductive UtlBlock
  /-- The stack of an entry. -/
  | base (id : ℕ) (addr : ULONG)
  /-- An entry. -/
  | entry (id : ℕ)
  deriving DecidableEq, Repr

namespace UtlEntry

/-- `p->flags|=UTLSTACK_FLAG_USED` -/
def setUsed (p : UtlEntry) : UtlEntry := { p with flags := p.flags ||| utlstackFlagUsed }

/-- It is to be freed and is not in use. -/
def Freeable (p : UtlEntry) : Prop :=
  p.flags &&& utlstackFlagFreeme ≠ 0 ∧ p.flags &&& utlstackFlagUsed = 0

instance : DecidablePred Freeable := fun p =>
  inferInstanceAs (Decidable (p.flags &&& utlstackFlagFreeme ≠ 0 ∧ _))

/-- What is freed of an entry, in order. -/
def blocks (p : UtlEntry) : List UtlBlock := [.base p.id p.base, .entry p.id]

end UtlEntry

/-- The loop of `LX_check_utl_freeme` at `p`, with the entries up to `prev`, until the lock is
dropped: the list, and the entry that has been taken out of it. -/
def freemeLoop (prev : List UtlEntry) : List UtlEntry → List UtlEntry × Option UtlEntry
  | [] => (prev, none)
  | p :: next =>
    if p.flags &&& utlstackFlagFreeme ≠ 0 then
      if p.flags &&& utlstackFlagUsed = 0 then (prev ++ next, some p.setUsed)
      else freemeLoop (prev ++ [p]) next
    else freemeLoop (prev ++ [p]) next

/-- Where `LX_check_utl_freeme` is. -/
inductive FreemePc
  /-- In front of `spin_lock_irqsave`. -/
  | lock
  /-- In front of `kfree((void*)p->base)`. -/
  | freeBase (p : UtlEntry)
  /-- In front of `kfree(p)`. -/
  | freeEntry (p : UtlEntry)
  /-- It has returned. -/
  | returned
  deriving DecidableEq, Repr

/-- The list, and a call of `LX_check_utl_freeme`. -/
structure UtlReap where
  /-- `lx_UtlStackRoot` -/
  root : List UtlEntry
  /-- Where the call is. -/
  pc : FreemePc
  /-- The number of the next new entry. -/
  nextId : ℕ
  deriving DecidableEq, Repr

/-- What happens. -/
inductive FreemeAct
  /-- The call goes on. -/
  | own
  /-- Another thread puts an entry into the list. -/
  | insert (pos : ℕ) (base flags : ULONG)
  /-- Another thread takes one out. -/
  | remove (id : ℕ)
  /-- Another thread changes the flags of one. -/
  | setFlags (id : ℕ) (flags : ULONG)
  deriving DecidableEq, Repr

namespace FreemePc

/-- The flags of an entry change. -/
def mapEntry (f : UtlEntry → UtlEntry) : FreemePc → FreemePc
  | .freeBase p => .freeBase (f p)
  | .freeEntry p => .freeEntry (f p)
  | pc => pc

/-- What is still to be freed. -/
def pending : FreemePc → List UtlBlock
  | .freeBase p => p.blocks
  | .freeEntry p => [.entry p.id]
  | .lock | .returned => []

/-- How many steps there are until the list has been gone through, if nothing is found. -/
def rank : FreemePc → ℕ
  | .freeBase _ => 3
  | .freeEntry _ => 2
  | .lock => 1
  | .returned => 0

end FreemePc

namespace UtlReap

/-- The next step of the call. -/
def ownStep (s : UtlReap) : Option UtlReap :=
  match s.pc with
  | .lock =>
    match freemeLoop [] s.root with
    | (root, some p) => some { s with root, pc := .freeBase p }
    | (root, none) => some { s with root, pc := .returned }
  | .freeBase p => some { s with pc := .freeEntry p }
  | .freeEntry _ => some { s with pc := .lock }
  | .returned => none

/-- The flags of an entry. -/
def changeFlags (id : ℕ) (flags : ULONG) (p : UtlEntry) : UtlEntry :=
  if p.id = id then { p with flags } else p

/-- The step function. -/
def step (s : UtlReap) : FreemeAct → Option UtlReap
  | .own => s.ownStep
  | .insert pos base flags =>
    some { s with
      root := s.root.take pos ++ ⟨s.nextId, base, flags⟩ :: s.root.drop pos
      nextId := s.nextId + 1 }
  | .remove id => some { s with root := s.root.filter fun p => p.id ≠ id }
  | .setFlags id flags =>
    some { s with
      root := s.root.map (changeFlags id flags)
      pc := s.pc.mapEntry (changeFlags id flags) }

/-- The call begins, and the entries have the bases and flags `l`. -/
def start (l : List (ULONG × ULONG)) : UtlReap :=
  ⟨l.mapIdx fun i x => ⟨i, x.1, x.2⟩, .lock, l.length⟩

/-- The machine. -/
def machine (l : List (ULONG × ULONG)) : Machine UtlReap FreemeAct := ⟨start l, step⟩

/-- The entry that a step takes out of the list. -/
def taken (s : UtlReap) : FreemeAct → List UtlEntry
  | .own => if s.pc = .lock then (freemeLoop [] s.root).2.toList else []
  | _ => []

/-- What a step frees. -/
def freed (s : UtlReap) : FreemeAct → List UtlBlock
  | .own =>
    match s.pc with
    | .freeBase p => [.base p.id p.base]
    | .freeEntry p => [.entry p.id]
    | .lock | .returned => []
  | _ => []

/-- A step of the call takes the first entry that is to be freed and not in use out of the list, or
leaves the list as it is; it returns only if there is no such entry. -/
def TakesOne (s : UtlReap) (a : FreemeAct) : Prop :=
  a = .own → ∀ s', s.step a = some s' →
    (∃ front e back, s.root = front ++ e :: back ∧ s'.root = front ++ back ∧ e.Freeable ∧
      (∀ x ∈ front, ¬ x.Freeable) ∧ s'.pc = .freeBase e.setUsed ∧ s.taken a = [e.setUsed]) ∨
    s'.root = s.root ∧ s.taken a = [] ∧ (s'.pc = .returned → ∀ x ∈ s.root, ¬ x.Freeable)

/-- An entry is added to the list. -/
def isInsert : FreemeAct → Bool
  | .insert _ _ _ => true
  | _ => false

/-- What a call has done after the actions `as`, which have led from the list `l` to `s`. -/
structure Reaped (l : List (ULONG × ULONG)) (as : List FreemeAct) (s : UtlReap) : Prop where
  /-- It takes out what is to be freed, and leaves the others in their order. -/
  takes : (machine l).Along TakesOne (start l) as
  /-- Of each entry it has taken out it frees the stack and the entry, once and afterwards, and
  nothing else. -/
  frees : ((machine l).collect taken (start l) as).flatMap UtlEntry.blocks =
    (machine l).collect freed (start l) as ++ s.pc.pending
  /-- It takes no entry out twice, and none is in the list then. -/
  nodup : ((machine l).collect taken (start l) as ++ s.root).map UtlEntry.id |>.Nodup
  /-- It goes on until it returns. -/
  progress : s.pc ≠ .returned → ∃ s', s.step .own = some s'
  /-- It returns after at most three steps for each entry there has been, and one more. -/
  steps : as.countP (· = .own) ≤
    3 * (l.length + as.countP isInsert) + 1

/-! ### The loop -/

variable {s s' : UtlReap} {prev front l : List UtlEntry} {e : UtlEntry}

/-- Entries that stay in the list. -/
theorem freemeLoop_append (h : ∀ x ∈ front, ¬ x.Freeable) :
    freemeLoop prev (front ++ l) = freemeLoop (prev ++ front) l := by
  induction front generalizing prev with
  | nil => rw [List.nil_append, List.append_nil]
  | cons p front ih =>
    obtain ⟨hp, hfront⟩ := List.forall_mem_cons.1 h
    have happend : prev ++ p :: front = prev ++ [p] ++ front := List.append_cons ..
    rw [List.cons_append, freemeLoop, ih hfront, happend]
    split_ifs with hfreeme hused
    · exact absurd ⟨hfreeme, hused⟩ hp
    · rfl
    · rfl

/-- **What happens under the lock**: the first entry that is to be freed is taken out, or there is
none. -/
theorem freemeLoop_cases (l : List UtlEntry) :
    (∃ front e back, l = front ++ e :: back ∧ e.Freeable ∧ (∀ x ∈ front, ¬ x.Freeable) ∧
      freemeLoop [] l = (front ++ back, some e.setUsed)) ∨
    (∀ x ∈ l, ¬ x.Freeable) ∧ freemeLoop [] l = (l, none) := by
  cases hfind : l.find? fun p => p.Freeable with
  | some e =>
    obtain ⟨he, front, back, rfl, hfront⟩ := List.find?_eq_some_iff_append.1 hfind
    have he' : e.Freeable := by simpa using he
    have hfront' : ∀ x ∈ front, ¬ x.Freeable := fun x hx => by simpa using hfront x hx
    refine .inl ⟨front, e, back, rfl, he', hfront', ?_⟩
    rw [freemeLoop_append hfront', freemeLoop, if_pos he'.1, if_pos he'.2, List.nil_append]
  | none =>
    have hnone : ∀ x ∈ l, ¬ x.Freeable := by simpa using hfind
    refine .inr ⟨hnone, ?_⟩
    have happend : freemeLoop [] (l ++ []) = freemeLoop ([] ++ l) [] := freemeLoop_append hnone
    rw [List.append_nil, List.nil_append] at happend
    rw [happend, freemeLoop]

/-! ### Steps -/

/-- **The steps of the call.** -/
theorem ownStep_cases (h : s.ownStep = some s') :
    (s.pc = .lock ∧ ∃ front e back, s.root = front ++ e :: back ∧ e.Freeable ∧
      (∀ x ∈ front, ¬ x.Freeable) ∧ s.taken .own = [e.setUsed] ∧
      s' = { s with root := front ++ back, pc := .freeBase e.setUsed }) ∨
    (s.pc = .lock ∧ (∀ x ∈ s.root, ¬ x.Freeable) ∧ s.taken .own = [] ∧
      s' = { s with pc := .returned }) ∨
    (∃ p, s.pc = .freeBase p ∧ s.taken .own = [] ∧ s' = { s with pc := .freeEntry p }) ∨
    ∃ p, s.pc = .freeEntry p ∧ s.taken .own = [] ∧ s' = { s with pc := .lock } := by
  unfold ownStep at h
  unfold taken
  cases hpc : s.pc with
  | lock =>
    rw [hpc] at h
    obtain ⟨front, e, back, hroot, he, hfront, hloop⟩ | ⟨hnone, hloop⟩ := freemeLoop_cases s.root
    · rw [hloop] at h ⊢
      cases h
      exact .inl ⟨rfl, front, e, back, hroot, he, hfront, rfl, rfl⟩
    · rw [hloop] at h ⊢
      cases h
      exact .inr (.inl ⟨rfl, hnone, rfl, rfl⟩)
  | freeBase p =>
    rw [hpc] at h
    cases h
    exact .inr (.inr (.inl ⟨p, rfl, rfl, rfl⟩))
  | freeEntry p =>
    rw [hpc] at h
    cases h
    exact .inr (.inr (.inr ⟨p, rfl, rfl, rfl⟩))
  | returned =>
    rw [hpc] at h
    cases h

/-- A call that has not returned goes on. -/
theorem exists_ownStep (h : s.pc ≠ .returned) : ∃ s', s.step .own = some s' := by
  unfold step ownStep
  cases hpc : s.pc with
  | lock =>
    obtain ⟨front, e, back, -, -, -, hloop⟩ | ⟨-, hloop⟩ := freemeLoop_cases s.root
    · rw [hloop]
      exact ⟨_, rfl⟩
    · rw [hloop]
      exact ⟨_, rfl⟩
  | freeBase p => exact ⟨_, rfl⟩
  | freeEntry p => exact ⟨_, rfl⟩
  | returned => exact absurd hpc h

theorem takesOne (s : UtlReap) (a : FreemeAct) : s.TakesOne a := by
  rintro rfl s' h
  obtain ⟨-, front, e, back, hroot, he, hfront, htaken, rfl⟩ | ⟨-, hnone, htaken, rfl⟩ |
    ⟨p, -, htaken, rfl⟩ | ⟨p, -, htaken, rfl⟩ := ownStep_cases h
  · exact .inl ⟨front, e, back, hroot, rfl, he, hfront, rfl, htaken⟩
  · exact .inr ⟨rfl, htaken, fun _ => hnone⟩
  · exact .inr ⟨rfl, htaken, nofun⟩
  · exact .inr ⟨rfl, htaken, nofun⟩

theorem changeFlags_id (id : ℕ) (flags : ULONG) (p : UtlEntry) :
    (changeFlags id flags p).id = p.id := by
  unfold changeFlags
  split_ifs <;> rfl

/-- Other threads do not change what is to be freed. -/
theorem pending_mapEntry (pc : FreemePc) (id : ℕ) (flags : ULONG) :
    (pc.mapEntry (changeFlags id flags)).pending = pc.pending := by
  have hbase (p : UtlEntry) : (changeFlags id flags p).base = p.base := by
    unfold changeFlags
    split_ifs <;> rfl
  cases pc with
  | freeBase p =>
    simp only [FreemePc.mapEntry, FreemePc.pending, UtlEntry.blocks]
    rw [changeFlags_id, hbase]
  | freeEntry p =>
    simp only [FreemePc.mapEntry, FreemePc.pending]
    rw [changeFlags_id]
  | lock | returned => rfl

/-- What is taken out is to be freed then, and what is freed is not to be freed any more. -/
theorem pending_step {a : FreemeAct} (h : s.step a = some s') :
    s.pc.pending ++ (s.taken a).flatMap UtlEntry.blocks = s.freed a ++ s'.pc.pending := by
  cases a with
  | own =>
    obtain ⟨hpc, front, e, back, -, -, -, htaken, rfl⟩ | ⟨hpc, -, htaken, rfl⟩ |
      ⟨p, hpc, htaken, rfl⟩ | ⟨p, hpc, htaken, rfl⟩ := ownStep_cases h <;>
    · rw [htaken]
      simp [freed, hpc, FreemePc.pending, UtlEntry.blocks]
  | insert pos base flags =>
    cases h
    simp [taken, freed]
  | remove id =>
    cases h
    simp [taken, freed]
  | setFlags id flags =>
    cases h
    simp [taken, freed, pending_mapEntry]

/-- **An entry that has been taken out** is not in the list any more, and is not taken out again. -/
theorem issued_step {t : List UtlEntry} {a : FreemeAct}
    (hI : Issued ((t ++ s.root).map UtlEntry.id) s.nextId) (h : s.step a = some s') :
    Issued ((t ++ s.taken a ++ s'.root).map UtlEntry.id) s'.nextId := by
  cases a with
  | own =>
    obtain ⟨-, front, e, back, hroot, -, -, htaken, rfl⟩ | ⟨-, -, htaken, rfl⟩ |
      ⟨p, -, htaken, rfl⟩ | ⟨p, -, htaken, rfl⟩ := ownStep_cases h
    · have hperm : ((t ++ [e.setUsed] ++ (front ++ back)).map UtlEntry.id).Perm
          ((t ++ s.root).map UtlEntry.id) := by
        rw [hroot]
        simp only [List.map_append, List.map_cons, List.append_assoc, List.cons_append,
          List.nil_append]
        exact List.perm_middle.symm.append_left _
      rw [htaken]
      exact hI.subperm hperm.subperm
    · rwa [htaken, List.append_nil]
    · rwa [htaken, List.append_nil]
    · rwa [htaken, List.append_nil]
  | insert pos base flags =>
    cases h
    refine hI.cons ?_
    have hroot : s.root = s.root.take pos ++ s.root.drop pos := (List.take_append_drop ..).symm
    have hperm : (t ++ (s.root.take pos ++ ⟨s.nextId, base, flags⟩ :: s.root.drop pos)).Perm
        (⟨s.nextId, base, flags⟩ :: (t ++ s.root)) := by
      nth_rewrite 3 [hroot]
      rw [← List.append_assoc, ← List.append_assoc]
      exact List.perm_middle
    simpa only [taken, List.append_nil, List.map_cons] using hperm.map UtlEntry.id
  | remove id =>
    cases h
    have htaken : s.taken (.remove id) = [] := rfl
    rw [htaken, List.append_nil]
    exact hI.subperm_map (List.filter_sublist.append_left t).subperm
  | setFlags id flags =>
    cases h
    have hids : (s.root.map (changeFlags id flags)).map UtlEntry.id = s.root.map UtlEntry.id := by
      rw [List.map_map]
      exact List.map_congr_left fun p _ => changeFlags_id id flags p
    have htaken : s.taken (.setFlags id flags) = [] := rfl
    rw [htaken, List.append_nil, List.map_append, hids, ← List.map_append]
    exact hI

theorem issued_start (l : List (ULONG × ULONG)) :
    Issued (([] ++ (start l).root).map UtlEntry.id) (start l).nextId := by
  have hids : (start l).root.map UtlEntry.id = List.range' 0 l.length := by
    unfold start
    rw [List.mapIdx_eq_zipIdx_map, List.map_map]
    exact List.zipIdx_map_snd 0 l
  rw [List.nil_append, hids]
  exact ⟨List.nodup_range', fun i hi => (List.mem_range'_1.1 hi).2.trans_eq (Nat.zero_add _)⟩

/-- How many steps the call can still take, if nothing is added to the list. -/
def stepsLeft (s : UtlReap) : ℕ := 3 * s.root.length + s.pc.rank

/-- A step of the call leaves one less, and other threads give it more to do only by adding
entries. -/
theorem stepsLeft_step {a : FreemeAct} (h : s.step a = some s') :
    (if decide (a = .own) then 1 else 0) + s'.stepsLeft ≤
      s.stepsLeft + 3 * if isInsert a then 1 else 0 := by
  cases a with
  | own =>
    have hown : (if decide (FreemeAct.own = .own) then 1 else 0) = 1 := rfl
    rw [hown]
    obtain ⟨hpc, front, e, back, hroot, -, -, -, rfl⟩ | ⟨hpc, -, -, rfl⟩ | ⟨p, hpc, -, rfl⟩ |
      ⟨p, hpc, -, rfl⟩ := ownStep_cases h
    · simp only [stepsLeft, hpc, hroot, FreemePc.rank, List.length_append, List.length_cons]
      omega
    all_goals
      simp only [stepsLeft, hpc, FreemePc.rank]
      omega
  | insert pos base flags =>
    cases h
    have hinsert : (if isInsert (.insert pos base flags) then 1 else 0) = 1 := rfl
    have hother : (if decide (FreemeAct.insert pos base flags = .own) then 1 else 0) = 0 := rfl
    rw [hinsert, hother]
    simp only [stepsLeft, List.length_append, List.length_cons, List.length_take,
      List.length_drop]
    omega
  | remove id =>
    cases h
    have hother : (if decide (FreemeAct.remove id = .own) then 1 else 0) = 0 := rfl
    have hle := List.length_filter_le (fun p : UtlEntry => p.id ≠ id) s.root
    rw [hother]
    simp only [stepsLeft]
    omega
  | setFlags id flags =>
    cases h
    have hother : (if decide (FreemeAct.setFlags id flags = .own) then 1 else 0) = 0 := rfl
    have hrank : (s.pc.mapEntry (changeFlags id flags)).rank = s.pc.rank := by
      cases s.pc <;> rfl
    rw [hother, Nat.zero_add]
    simp only [stepsLeft, List.length_map, hrank]
    exact Nat.le_add_right ..

/-- **Reaping**: whatever other threads do to the list while the lock is dropped. -/
theorem reaped_of_exec {l : List (ULONG × ULONG)} {as : List FreemeAct}
    (h : (machine l).exec (start l) as = some s) : Reaped l as s := by
  have hrun : (machine l).Run Machine.anyStep (start l) as s := Machine.run_anyStep_iff.2 h
  constructor
  · exact Machine.along_of_forall (I := fun _ => True) (H := fun _ => True)
      (fun s a _ _ => takesOne s a) (fun _ _ _ _ _ _ => trivial) trivial fun _ _ => trivial
  · have hstep : ∀ s a s', True → Machine.anyStep s a → (machine l).step s a = some s' → True ∧
        s.pc.pending ++ (s.taken a).flatMap UtlEntry.blocks = s.freed a ++ s'.pc.pending :=
      fun s a s' _ _ hs => ⟨trivial, pending_step hs⟩
    have hfrees := hrun.conserve hstep trivial
    rwa [Machine.collect_flatMap] at hfrees
  · have hissued := hrun.history (f := taken)
      (I := fun t s => Issued ((t ++ s.root).map UtlEntry.id) s.nextId)
      (fun _ _ _ _ hI _ hs => issued_step hI hs) (issued_start l)
    exact hissued.nodup
  · exact exists_ownStep
  · have hle : as.countP (· = .own) + s.stepsLeft ≤
        (start l).stepsLeft + 3 * as.countP isInsert :=
      hrun.countP_le fun _ _ _ _ hs => stepsLeft_step hs
    have hstart : (start l).stepsLeft = 3 * l.length + 1 := by
      simp [stepsLeft, start, FreemePc.rank]
    omega

/-- Two entries that are to be freed, one of them in use, and one that another thread puts in front
while the first is freed. -/
theorem reaped_two : ∃ s, (machine [(0x10000, 17), (0x20000, 16)]).exec
      (start [(0x10000, 17), (0x20000, 16)])
      [.own, .insert 0 0x30000 16, .own, .setFlags 0 0, .own, .own, .own, .own, .own] = some s ∧
    Reaped [(0x10000, 17), (0x20000, 16)]
      [.own, .insert 0 0x30000 16, .own, .setFlags 0 0, .own, .own, .own, .own, .own] s :=
  ⟨⟨[⟨0, 0x10000, 0⟩], .returned, 3⟩, by decide, reaped_of_exec (by decide)⟩

end UtlReap

end LxApi32
