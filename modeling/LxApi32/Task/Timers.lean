import LxApi32.Lib.Machine
import LxApi32.Lib.Places
import LxApi32.Lib.TimingWheel
import Mathlib.Tactic.IntervalCases
import Mathlib.Tactic.NormNum

/-!
# Timers

A pending timer is in one of the lists of the timer vectors.  Every slot of `tv1` stands for one
tick, and every slot of the other vectors for as many ticks as the whole vector before it.
`__run_timers` goes on by one tick after the other: when a vector is through, it moves the timers
of the next slot of the vector behind it down (`cascade`), and then it runs the timers of one slot
of `tv1`, with the lock released while the function of a timer is running.

* `Timers.Inv` : each timer is in the slot for the tick in which it is to run.
* `Timers.runs_once` : a timer runs in that tick, once, and no pending timer is left behind.
* `Timers.deleted_never_runs` : a deleted timer does not run.
-/

namespace LxApi32

/-- A list that a timer can be in. -/
inductive TimerPlace
  /-- `tv1.vec` -/
  | tv1 (i : Fin 256)
  /-- `tv2.vec`, `tv3.vec`, `tv4.vec` and `tv5.vec` -/
  | tvn (k : Fin 4) (i : Fin 64)
  /-- The `work_list` of `__run_timers`. -/
  | work
  deriving DecidableEq, Repr

/-- A `struct timer_list`. -/
structure TimerList where
  /-- `expires` -/
  expires : BitVec 32
  /-- `base` is not `NULL`. -/
  base : Bool
  deriving DecidableEq, Repr

/-- The `tvec_base_t` with its timers. -/
structure Timers (T : Type*) where
  /-- `jiffies` -/
  jiffies : BitVec 32
  /-- `timer_jiffies` -/
  timerJiffies : BitVec 32
  /-- `running_timer` -/
  runningTimer : Option T
  /-- The lists. -/
  list : TimerPlace → List T
  /-- It is in the loop of `__run_timers`. -/
  inLoop : Bool
  /-- The timers. -/
  timer : T → TimerList

/-- What happens. -/
inductive TimerAct (T : Type*)
  /-- `jiffies` is read from the clock. -/
  | clock (j : BitVec 32)
  /-- `__mod_timer` -/
  | rawModTimer (t : T) (expires : BitVec 32)
  /-- `mod_timer` -/
  | modTimer (t : T) (expires : BitVec 32)
  /-- `del_timer` -/
  | delTimer (t : T)
  /-- `run_timer_softirq` -/
  | runTimerSoftirq
  /-- `__run_timers` goes on with the lock. -/
  | next
  deriving DecidableEq, Repr

/-- It sets the timer. -/
def TimerAct.Sets {T : Type*} (t : T) : TimerAct T → Prop
  | .rawModTimer u _ | .modTimer u _ => u = t
  | _ => False

/-- It sets or deletes the timer. -/
def TimerAct.On {T : Type*} (t : T) (a : TimerAct T) : Prop := a.Sets t ∨ a = .delTimer t

instance {T : Type*} [DecidableEq T] (t : T) (a : TimerAct T) : Decidable (a.Sets t) :=
  match a with
  | .rawModTimer u _ | .modTimer u _ => inferInstanceAs (Decidable (u = t))
  | .clock _ | .delTimer _ | .runTimerSoftirq | .next => inferInstanceAs (Decidable False)

instance {T : Type*} [DecidableEq T] (t : T) (a : TimerAct T) : Decidable (a.On t) :=
  inferInstanceAs (Decidable (a.Sets t ∨ a = .delTimer t))

namespace Timers

open Places (Linked)

/-- An index by `TVR_MASK`. -/
def tvrIndex (x : BitVec 32) : Fin 256 := Fin.ofNat 256 x.toNat

/-- `INDEX`, also of `expires` -/
def tvnIndex (k : Fin 4) (x : BitVec 32) : Fin 64 := Fin.ofNat 64 (x >>> (8 + 6 * k.val)).toNat

/-- The list that `internal_add_timer` takes. -/
def slot (timerJiffies expires : BitVec 32) : TimerPlace :=
  let idx := expires - timerJiffies
  if idx.toNat < 2 ^ 8 then .tv1 (tvrIndex expires)
  else if idx.toNat < 2 ^ 14 then .tvn 0 (tvnIndex 0 expires)
  else if idx.toNat < 2 ^ 20 then .tvn 1 (tvnIndex 1 expires)
  else if idx.toNat < 2 ^ 26 then .tvn 2 (tvnIndex 2 expires)
  else if idx.msb then .tv1 (tvrIndex timerJiffies)
  else .tvn 3 (tvnIndex 3 expires)

/-- `time_after_eq` -/
def timeAfterEq (a b : BitVec 32) : Bool := !(a - b).msb

variable {T : Type*} [DecidableEq T]

/-- `internal_add_timer` -/
def internalAddTimer (s : Timers T) (t : T) : Timers T :=
  let p := slot s.timerJiffies (s.timer t).expires
  { s with list := Function.update s.list p (s.list p ++ [t]) }

/-- `list_del` -/
def listDel (s : Timers T) (t : T) : Timers T := { s with list := fun p => (s.list p).erase t }

/-- A timer gets another `base`. -/
def setBase (s : Timers T) (t : T) (b : Bool) : Timers T :=
  { s with timer := Function.update s.timer t { s.timer t with base := b } }

/-- `__mod_timer` -/
def rawModTimer (s : Timers T) (t : T) (expires : BitVec 32) : Timers T :=
  let s := if (s.timer t).base then s.listDel t else s
  let s := { s with timer := Function.update s.timer t { s.timer t with expires := expires } }
  (s.internalAddTimer t).setBase t true

/-- `cascade` -/
def cascade (s : Timers T) (k : Fin 4) (index : Fin 64) : Timers T :=
  let s := (s.list (.tvn k index)).foldl internalAddTimer s
  { s with list := Function.update s.list (.tvn k index) [] }

/-- The cascades at the beginning of a tick: `&&` goes on as long as the index is 0. -/
def cascades (s : Timers T) : Timers T :=
  if tvrIndex s.timerJiffies ≠ 0 then s
  else
    let s := s.cascade 0 (tvnIndex 0 s.timerJiffies)
    if tvnIndex 0 s.timerJiffies ≠ 0 then s
    else
      let s := s.cascade 1 (tvnIndex 1 s.timerJiffies)
      if tvnIndex 1 s.timerJiffies ≠ 0 then s
      else
        let s := s.cascade 2 (tvnIndex 2 s.timerJiffies)
        if tvnIndex 2 s.timerJiffies ≠ 0 then s
        else s.cascade 3 (tvnIndex 3 s.timerJiffies)

/-- A tick: the cascades, and `list_splice_init` to the `work_list`. -/
def tick (s : Timers T) : Timers T :=
  let index := tvrIndex s.timerJiffies
  let s := s.cascades
  { s with
    timerJiffies := s.timerJiffies + 1
    list := Function.update (Function.update s.list .work (s.list (.tv1 index))) (.tv1 index) [] }

/-- The step function. -/
def step (s : Timers T) : TimerAct T → Option (Timers T)
  | .clock j => some { s with jiffies := j }
  | .rawModTimer t expires => some (s.rawModTimer t expires)
  | .modTimer t expires =>
    if (s.timer t).expires = expires ∧ (s.timer t).base then some s
    else some (s.rawModTimer t expires)
  | .delTimer t => if (s.timer t).base then some ((s.listDel t).setBase t false) else some s
  | .runTimerSoftirq =>
    if s.inLoop then none
    else if timeAfterEq s.jiffies s.timerJiffies then some { s with inLoop := true }
    else some s
  | .next =>
    if s.inLoop then
      match s.list .work with
      | t :: q =>
        some ({ s with list := Function.update s.list .work q, runningTimer := some t }.setBase t
          false)
      | [] =>
        if timeAfterEq s.jiffies s.timerJiffies then some s.tick
        else some { s with inLoop := false, runningTimer := none }
    else none

/-- `init_timers_cpu` -/
def machine (T : Type*) [DecidableEq T] (jiffies : BitVec 32) :
    Machine (Timers T) (TimerAct T) where
  init :=
    { jiffies := jiffies, timerJiffies := jiffies, runningTimer := none, list := fun _ => []
      inLoop := false, timer := fun _ => ⟨0, false⟩ }
  step := step

/-- The timers whose function a step calls, with the tick. -/
def calls (s : Timers T) : TimerAct T → List (T × BitVec 32)
  | .next =>
    match s.inLoop, s.list .work with
    | true, t :: _ => [(t, s.timerJiffies - 1)]
    | _, _ => []
  | _ => []

/-- The tick in which a timer is to run that is set now: the one it expires in, and the next one
if that has passed. -/
def due (s : Timers T) (expires : BitVec 32) : BitVec 32 :=
  if (expires - s.timerJiffies).msb then s.timerJiffies else expires

/-! ### The slots -/

variable {n d : ℕ} {x : BitVec 32} {p : TimerPlace}

theorem tvrIndex_ofNat (d : ℕ) : (tvrIndex (BitVec.ofNat 32 d)).val = d / 1 % 256 := by
  simp only [tvrIndex, Fin.ofNat, BitVec.toNat_ofNat]
  omega

theorem tvnIndex_ofNat (k : Fin 4) (d : ℕ) :
    (tvnIndex k (BitVec.ofNat 32 d)).val = d / 2 ^ (8 + 6 * k.val) % 64 := by
  simp only [tvnIndex, Fin.ofNat, BitVec.toNat_ushiftRight, BitVec.toNat_ofNat,
    Nat.shiftRight_eq_div_pow]
  have hk := k.isLt
  interval_cases k.val <;> omega

/-- A timer that is to run in the tick `d` may be there when `n` is the next tick. -/
def PlacedAt (n d : ℕ) : TimerPlace → Prop
  | .tv1 i => TimingWheel.Placed 1 256 n d i
  | .tvn k i => TimingWheel.Placed (2 ^ (8 + 6 * k.val)) 64 n d i
  | .work => d + 1 = n

/-- The distance of two ticks. -/
theorem toNat_sub_ofNat (hle : n ≤ d) (hlt : d < n + 2 ^ 31) :
    (BitVec.ofNat 32 d - BitVec.ofNat 32 n).toNat = d - n := by
  rw [BitVec.toNat_sub, BitVec.toNat_ofNat, BitVec.toNat_ofNat]
  omega

/-- **A slot of `tv2` and so on** is taken for times behind the vector before it. -/
theorem slot_tvn {k : Fin 4} {i : Fin 64} (hle : n ≤ d) (hlt : d < n + 2 ^ 31)
    (h : slot (BitVec.ofNat 32 n) (BitVec.ofNat 32 d) = .tvn k i) :
    n + 2 ^ (8 + 6 * k.val) ≤ d ∧ d < n + 64 * 2 ^ (8 + 6 * k.val) ∧
      i = tvnIndex k (BitVec.ofNat 32 d) := by
  have hidx := toNat_sub_ofNat hle hlt
  simp only [slot, hidx] at h
  have hthree : ((3 : Fin 4) : ℕ) = 3 := rfl
  split_ifs at h <;> cases h <;> refine ⟨?_, ?_, rfl⟩ <;> norm_num [hthree] <;> omega

/-- A slot of `tv1` is taken for the times of the vector, and for those that have passed. -/
theorem slot_tv1 {i : Fin 256} (hle : n ≤ d) (hlt : d < n + 2 ^ 31)
    (h : slot (BitVec.ofNat 32 n) (BitVec.ofNat 32 d) = .tv1 i) :
    d < n + 256 ∧ i = tvrIndex (BitVec.ofNat 32 d) := by
  have hidx := toNat_sub_ofNat hle hlt
  simp only [slot, hidx, BitVec.msb_eq_decide, decide_eq_true_eq] at h
  split_ifs at h <;> cases h
  · exact ⟨by omega, rfl⟩
  · omega

theorem slot_ne_work (x y : BitVec 32) : slot x y ≠ .work := by
  simp only [slot]
  split_ifs <;> nofun

/-- A time that has passed. -/
theorem slot_of_msb {y : BitVec 32} (h : (y - x).msb = true) : slot x y = .tv1 (tvrIndex x) := by
  have hlow : 2 ^ 31 ≤ (y - x).toNat := by simpa [BitVec.msb_eq_decide] using h
  rw [slot, if_neg (by omega), if_neg (by omega), if_neg (by omega), if_neg (by omega), if_pos h]

/-- **A new timer** is in the slot for its tick. -/
theorem placedAt_slot (hle : n ≤ d) (hlt : d < n + 2 ^ 31) :
    PlacedAt n d (slot (BitVec.ofNat 32 n) (BitVec.ofNat 32 d)) := by
  cases hslot : slot (BitVec.ofNat 32 n) (BitVec.ofNat 32 d) with
  | tv1 i =>
    obtain ⟨hnear, rfl⟩ := slot_tv1 hle hlt hslot
    exact ⟨by omega, by omega, tvrIndex_ofNat d⟩
  | tvn k i =>
    obtain ⟨hlater, hrange, rfl⟩ := slot_tvn hle hlt hslot
    have hpos : 0 < 2 ^ (8 + 6 * k.val) := by positivity
    exact ⟨(TimingWheel.lt_block hpos hlater).le, hrange, tvnIndex_ofNat k d⟩
  | work => exact absurd hslot (slot_ne_work _ _)

/-! ### The lists -/

variable {s s' : Timers T} {t u : T} {a : TimerAct T} {place : T → Option TimerPlace}

/-- What the loop of `cascade` adds to a list. -/
def arrivals (s : Timers T) (l : List T) (p : TimerPlace) : List T :=
  l.filter fun t => slot s.timerJiffies (s.timer t).expires = p

omit [DecidableEq T] in
theorem foldl_internalAddTimer (s : Timers T) (l : List T) :
    l.foldl Timers.internalAddTimer s =
      { s with list := fun p => s.list p ++ s.arrivals l p } := by
  induction l generalizing s with
  | nil => simp [arrivals]
  | cons t l ih =>
    rw [List.foldl_cons, ih]
    simp only [Timers.internalAddTimer, Timers.mk.injEq, true_and, and_true]
    funext p
    by_cases hp : slot s.timerJiffies (s.timer t).expires = p
    · subst hp
      simp [arrivals]
    · simp [arrivals, Function.update_of_ne (Ne.symm hp), hp]

omit [DecidableEq T] in
/-- What `cascade` does. -/
theorem cascade_eq (s : Timers T) (k : Fin 4) (i : Fin 64) :
    s.cascade k i =
      { s with
        list := Function.update (fun p => s.list p ++ s.arrivals (s.list (.tvn k i)) p)
          (.tvn k i) [] } := by
  rw [Timers.cascade, foldl_internalAddTimer]

omit [DecidableEq T] in
theorem cascade_list_self (s : Timers T) (k : Fin 4) (i : Fin 64) :
    (s.cascade k i).list (.tvn k i) = [] := Function.update_self ..

omit [DecidableEq T] in
theorem cascade_list_of_ne (s : Timers T) {k : Fin 4} {i : Fin 64} (hp : p ≠ .tvn k i) :
    (s.cascade k i).list p = s.list p ++ s.arrivals (s.list (.tvn k i)) p := by
  rw [cascade_eq]
  simp only [Function.update_of_ne hp]

omit [DecidableEq T] in
theorem mem_arrivals {l : List T} :
    t ∈ s.arrivals l p ↔ t ∈ l ∧ slot s.timerJiffies (s.timer t).expires = p := by
  rw [arrivals, List.mem_filter, decide_eq_true_eq]

/-- Where the timers are after `cascade`. -/
def moved (s : Timers T) (place : T → Option TimerPlace) (k : Fin 4) (i : Fin 64) (t : T) :
    Option TimerPlace :=
  if place t = some (.tvn k i) then some (slot s.timerJiffies (s.timer t).expires) else place t

omit [DecidableEq T] in
/-- **A cascade** loses no timer, unless it puts one back where it was. -/
theorem linked_cascade (h : Linked place s.list) {k : Fin 4} {i : Fin 64}
    (hne : ∀ t, place t = some (.tvn k i) →
      slot s.timerJiffies (s.timer t).expires ≠ .tvn k i) :
    Linked (s.moved place k i) (s.cascade k i).list := by
  refine ⟨fun p t => ?_, fun p => ?_⟩
  · rcases eq_or_ne p (.tvn k i) with rfl | hp
    · rw [cascade_list_self, moved]
      refine iff_of_false List.not_mem_nil ?_
      split
      next ht => exact fun heq => hne t ht (Option.some.inj heq)
      next ht => exact ht
    · rw [s.cascade_list_of_ne hp, List.mem_append, mem_arrivals, h.mem_iff, h.mem_iff, moved]
      split
      next ht =>
        rw [ht, Option.some.injEq, Option.some.injEq]
        simp [Ne.symm hp]
      next ht => simp [ht]
  · rcases eq_or_ne p (.tvn k i) with rfl | hp
    · rw [cascade_list_self]
      exact List.nodup_nil
    · rw [s.cascade_list_of_ne hp]
      refine List.Nodup.append (h.nodup p) ((h.nodup _).filter _) fun t ht ht' => ?_
      rw [h.mem_iff] at ht
      have hcascaded := (h.mem_iff _ t).1 (mem_arrivals.1 ht').1
      exact hp (Option.some.inj (ht.symm.trans hcascaded))

/-! ### The invariant -/

variable {due : T → ℕ}

/-- The next tick is `n`, and each timer is where it has to be to run in the tick `due`. -/
structure Inv (n : ℕ) (due : T → ℕ) (place : T → Option TimerPlace) (s : Timers T) : Prop where
  linked : Linked place s.list
  now : s.timerJiffies = BitVec.ofNat 32 n
  base : ∀ t, (s.timer t).base = (place t).isSome
  placed : ∀ t p, place t = some p → PlacedAt n (due t) p
  near : ∀ t p, place t = some p → due t < n + 2 ^ 31
  expires : ∀ t k i, place t = some (.tvn k i) →
    (s.timer t).expires = BitVec.ofNat 32 (due t)
  idle : s.inLoop = false → ∀ t, place t ≠ some .work

/-- The timers of the first `k` of the vectors behind `tv1` may stay there in the next tick. -/
def Ahead (n : ℕ) (due : T → ℕ) (place : T → Option TimerPlace) (k : ℕ) : Prop :=
  ∀ t j i, place t = some (.tvn j i) → j.val < k → PlacedAt (n + 1) (due t) (.tvn j i)

omit [DecidableEq T] in
/-- The slot of the clock. -/
theorem tvnIndex_now (hI : Inv n due place s) (k : Fin 4) :
    (tvnIndex k s.timerJiffies).val = n / 2 ^ (8 + 6 * k.val) % 64 := by
  rw [hI.now, tvnIndex_ofNat]

omit [DecidableEq T] in
/-- The timers that a cascade takes up run before the slot behind theirs begins. -/
theorem Inv.lt_of_cascade (hI : Inv n due place s) {k : Fin 4} (hdvd : 2 ^ (8 + 6 * k.val) ∣ n)
    (ht : place t = some (.tvn k (tvnIndex k s.timerJiffies))) :
    n ≤ due t ∧ due t < n + 2 ^ (8 + 6 * k.val) := by
  have hplaced : TimingWheel.Placed _ 64 n (due t) _ := hI.placed t _ ht
  exact ⟨hplaced.le, hplaced.lt_of_slot (by positivity) hdvd (tvnIndex_now hI k)⟩

omit [DecidableEq T] in
/-- **One cascade**: the timers of the slot go to the vectors before it. -/
theorem Inv.cascade (hI : Inv n due place s) {k : Fin 4} (hdvd : 2 ^ (8 + 6 * k.val) ∣ n)
    (hahead : Ahead n due place k) {i : Fin 64} (hi : i = tvnIndex k s.timerJiffies) :
    Inv n due (s.moved place k i) (s.cascade k i) ∧
      Ahead n due (s.moved place k i) (k.val + 1) := by
  subst hi
  set i := tvnIndex k s.timerJiffies with hi
  -- where a timer goes, and that this is not behind its old place
  have hslot : ∀ t, place t = some (.tvn k i) →
      slot s.timerJiffies (s.timer t).expires =
        slot (BitVec.ofNat 32 n) (BitVec.ofNat 32 (due t)) := fun t ht => by
    rw [hI.now, hI.expires t k i ht]
  have hlower : ∀ t, place t = some (.tvn k i) → ∀ j m,
      slot s.timerJiffies (s.timer t).expires = .tvn j m → j.val < k.val ∧
        PlacedAt (n + 1) (due t) (.tvn j m) := by
    intro t ht j m hjm
    obtain ⟨hle, hlt⟩ := hI.lt_of_cascade hdvd ht
    rw [hslot t ht] at hjm
    obtain ⟨hlater, hrange, rfl⟩ := slot_tvn hle (hI.near t _ ht) hjm
    have hpos : 0 < 2 ^ (8 + 6 * j.val) := by positivity
    refine ⟨?_, TimingWheel.lt_block hpos hlater, by omega, tvnIndex_ofNat j (due t)⟩
    have hpow : 2 ^ (8 + 6 * j.val) < 2 ^ (8 + 6 * k.val) := by omega
    have := (Nat.pow_lt_pow_iff_right (by decide : 1 < 2)).1 hpow
    omega
  have hlinked := linked_cascade (k := k) (i := i) hI.linked fun t ht heq =>
    absurd (hlower t ht k i heq).1 (lt_irrefl _)
  rw [cascade_eq] at hlinked ⊢
  refine ⟨⟨hlinked, hI.now, fun t => ?_, fun t p ht => ?_, fun t p ht => ?_, fun t j m ht => ?_,
    fun hloop t ht => ?_⟩, fun t j m ht hj => ?_⟩
  · rw [moved]
    split
    next ht =>
      have := hI.base t
      rwa [ht] at this
    next => exact hI.base t
  · rw [moved] at ht
    split at ht
    next hcascaded =>
      cases ht
      rw [hslot t hcascaded]
      exact placedAt_slot (hI.lt_of_cascade hdvd hcascaded).1 (hI.near t _ hcascaded)
    next => exact hI.placed t p ht
  · rw [moved] at ht
    split at ht
    next hcascaded => exact hI.near t _ hcascaded
    next => exact hI.near t p ht
  · rw [moved] at ht
    split at ht
    next hcascaded => exact hI.expires t k i hcascaded
    next => exact hI.expires t j m ht
  · rw [moved] at ht
    split at ht
    next => exact slot_ne_work _ _ (Option.some.inj ht)
    next => exact hI.idle hloop t ht
  · rw [moved] at ht
    split at ht
    next hcascaded => exact (hlower t hcascaded j m (Option.some.inj ht)).2
    next hne =>
      rcases eq_or_ne j.val k.val with hjk | hjk
      · -- the slot of the clock is empty now
        obtain rfl := Fin.ext hjk
        refine TimingWheel.Placed.next (hI.placed t _ ht) fun hnow => hne ?_
        rw [ht, hi, Option.some.injEq, TimerPlace.tvn.injEq]
        exact ⟨rfl, Fin.ext (hnow.2.trans (tvnIndex_now hI j).symm)⟩
      · exact hahead t j m ht (by omega)

/-- After the cascades of the first `k` vectors behind `tv1`. -/
structure Cascaded (n : ℕ) (due : T → ℕ) (place place' : T → Option TimerPlace) (s s' : Timers T)
    (k : ℕ) : Prop where
  inv : Inv n due place' s'
  ahead : Ahead n due place' k
  timer : s'.timer = s.timer
  inLoop : s'.inLoop = s.inLoop
  work : ∀ t, place' t = some .work → place t = some .work

omit [DecidableEq T] in
theorem Cascaded.next {place' : T → Option TimerPlace} {k : Fin 4}
    (h : Cascaded n due place place' s s' k) (hdvd : 2 ^ (8 + 6 * k.val) ∣ n) :
    ∃ place'', Cascaded n due place place'' s (s'.cascade k (tvnIndex k s'.timerJiffies))
      (k.val + 1) := by
  obtain ⟨hinv, hahead⟩ := h.inv.cascade hdvd h.ahead rfl
  refine ⟨_, hinv, hahead, ?_, ?_, fun t ht => ?_⟩
  · rw [← h.timer, cascade_eq]
  · rw [← h.inLoop, cascade_eq]
  · rw [moved] at ht
    split at ht
    next => exact absurd (Option.some.inj ht) (slot_ne_work _ _)
    next => exact h.work t ht

omit [DecidableEq T] in
/-- The vectors behind one that is not through keep their timers. -/
theorem Cascaded.done {place' : T → Option TimerPlace} {k : ℕ}
    (h : Cascaded n due place place' s s' k) (hnot : ¬ 2 ^ (8 + 6 * k) ∣ n) :
    Cascaded n due place place' s s' 4 := by
  refine { h with ahead := fun t j i ht hj => ?_ }
  by_cases hjk : j.val < k
  · exact h.ahead t j i ht hjk
  · refine TimingWheel.Placed.next (h.inv.placed t _ ht) fun hnow => hnot ?_
    exact (pow_dvd_pow 2 (by omega)).trans hnow.1

omit [DecidableEq T] in
/-- A vector is through when its index is 0 and the vector before it is through. -/
theorem dvd_of_index {k : Fin 4} (hI : Inv n due place s) (hdvd : 2 ^ (8 + 6 * k.val) ∣ n) :
    tvnIndex k s.timerJiffies = 0 ↔ 2 ^ (8 + 6 * (k.val + 1)) ∣ n := by
  have hindex := tvnIndex_now hI k
  have hpow : 2 ^ (8 + 6 * (k.val + 1)) = 2 ^ (8 + 6 * k.val) * 64 := by ring
  rw [Fin.ext_iff, hindex, hpow]
  constructor
  · exact fun h => Nat.mul_dvd_of_dvd_div hdvd (Nat.dvd_of_mod_eq_zero h)
  · exact fun h => Nat.mod_eq_zero_of_dvd (Nat.dvd_div_of_mul_dvd h)

omit [DecidableEq T] in
/-- **The cascades** of a tick. -/
theorem Inv.cascades (hI : Inv n due place s) :
    ∃ place', Cascaded n due place place' s s.cascades 4 := by
  have hzero : Cascaded n due place place s s 0 :=
    ⟨hI, fun _ _ _ _ h => absurd h (Nat.not_lt_zero _), rfl, rfl, fun _ => id⟩
  have hroot : tvrIndex s.timerJiffies = 0 ↔ 2 ^ (8 + 6 * 0) ∣ n := by
    rw [hI.now, Fin.ext_iff, tvrIndex_ofNat, Fin.val_zero]
    omega
  unfold Timers.cascades
  split
  next h₀ => exact ⟨place, hzero.done fun hdvd => h₀ (hroot.2 hdvd)⟩
  next h₀ =>
  have hdvd₀ := hroot.1 (not_not.1 h₀)
  obtain ⟨place₁, hone⟩ := hzero.next (k := 0) hdvd₀
  dsimp only
  split
  next h₁ =>
    exact ⟨place₁, hone.done fun hdvd => h₁ ((dvd_of_index (k := 0) hone.inv hdvd₀).2 hdvd)⟩
  next h₁ =>
  have hdvd₁ := (dvd_of_index (k := 0) hone.inv hdvd₀).1 (not_not.1 h₁)
  obtain ⟨place₂, htwo⟩ := hone.next (k := 1) hdvd₁
  split
  next h₂ =>
    exact ⟨place₂, htwo.done fun hdvd => h₂ ((dvd_of_index (k := 1) htwo.inv hdvd₁).2 hdvd)⟩
  next h₂ =>
  have hdvd₂ := (dvd_of_index (k := 1) htwo.inv hdvd₁).1 (not_not.1 h₂)
  obtain ⟨place₃, hthree⟩ := htwo.next (k := 2) hdvd₂
  split
  next h₃ =>
    exact ⟨place₃, hthree.done fun hdvd => h₃ ((dvd_of_index (k := 2) hthree.inv hdvd₂).2 hdvd)⟩
  next h₃ =>
    exact hthree.next (k := 3) ((dvd_of_index (k := 2) hthree.inv hdvd₂).1 (not_not.1 h₃))

/-- Where the timers are when those of a slot of `tv1` are in the `work_list`. -/
def spliced (place : T → Option TimerPlace) (i : Fin 256) (t : T) : Option TimerPlace :=
  if place t = some (.tv1 i) then some .work else place t

omit [DecidableEq T] in
/-- **A tick**: the timers that are due are in the `work_list`. -/
theorem Inv.tick (hI : Inv n due place s) (hloop : s.inLoop = true) (hwork : s.list .work = []) :
    ∃ place', Inv (n + 1) due place' s.tick ∧ ∀ t, (place' t).isSome = (place t).isSome := by
  obtain ⟨place', hc⟩ := hI.cascades
  have hnone : ∀ t, place' t ≠ some .work := fun t ht => by
    have hmem := (hI.linked.mem_iff _ t).2 (hc.work t ht)
    rw [hwork] at hmem
    cases hmem
  have hempty : s.cascades.list .work = [] :=
    List.eq_nil_iff_forall_not_mem.2 fun t ht => hnone t ((hc.inv.linked.mem_iff _ t).1 ht)
  set i := tvrIndex s.timerJiffies with hi
  have hindex : i.val = n / 1 % 256 := by rw [hi, hI.now, tvrIndex_ofNat]
  have hsome : ∀ t, (spliced place' i t).isSome = (place' t).isSome := by
    intro t
    rw [spliced]
    split
    next ht => rw [ht]; rfl
    next => rfl
  have hbase : ∀ t, (place' t).isSome = (place t).isSome := fun t => by
    rw [← hc.inv.base, ← hI.base, hc.timer]
  refine ⟨spliced place' i, ⟨hc.inv.linked.splice nofun hempty, ?_, fun t => ?_, fun t p ht => ?_,
    fun t p ht => ?_, fun t k m ht => ?_, fun hout => ?_⟩, fun t => (hsome t).trans (hbase t)⟩
  · change s.cascades.timerJiffies + 1 = _
    rw [hc.inv.now, BitVec.ofNat_add]
    rfl
  · rw [hsome]
    exact hc.inv.base t
  · rw [spliced] at ht
    split at ht
    next hslot =>
      -- the timers of the slot run in this tick
      cases ht
      have hplaced : TimingWheel.Placed 1 256 n (due t) i := hc.inv.placed t _ hslot
      have hlt := hplaced.lt_of_slot Nat.one_pos (one_dvd n) hindex
      have hle := hplaced.le
      change due t + 1 = n + 1
      omega
    next hslot =>
      cases p with
      | tv1 m =>
        refine TimingWheel.Placed.next (hc.inv.placed t _ ht) fun hnow => hslot ?_
        rw [ht, Option.some.injEq, TimerPlace.tv1.injEq]
        exact Fin.ext (hnow.2.trans hindex.symm)
      | tvn k m => exact hc.ahead t k m ht k.isLt
      | work => exact absurd ht (hnone t)
  · have hnear : due t < n + 2 ^ 31 := by
      rw [spliced] at ht
      split at ht
      next hslot => exact hc.inv.near t _ hslot
      next => exact hc.inv.near t p ht
    omega
  · rw [spliced] at ht
    split at ht
    next => cases ht
    next => exact hc.inv.expires t k m ht
  · change s.cascades.inLoop = false at hout
    rw [hc.inLoop, hloop] at hout
    cases hout

/-- A timer is taken out of its list. -/
theorem Inv.remove (hI : Inv n due place s)
    (hlinked : Linked (Function.update place t none) s'.list)
    (hnow : s'.timerJiffies = s.timerJiffies) (hloop : s'.inLoop = s.inLoop)
    (htimer : s'.timer = Function.update s.timer t { s.timer t with base := false }) :
    Inv n due (Function.update place t none) s' := by
  have hkeep : ∀ u p, Function.update place t none u = some p → u ≠ t ∧ place u = some p := by
    intro u p hu
    rcases eq_or_ne u t with rfl | hne
    · rw [Function.update_self] at hu
      cases hu
    · exact ⟨hne, by rwa [Function.update_of_ne hne] at hu⟩
  refine ⟨hlinked, hnow.trans hI.now, fun u => ?_, fun u p hu => hI.placed u p (hkeep u p hu).2,
    fun u p hu => hI.near u p (hkeep u p hu).2, fun u k i hu => ?_, fun hout u hu => ?_⟩
  · rw [htimer]
    rcases eq_or_ne u t with rfl | hne
    · rw [Function.update_self, Function.update_self]
      rfl
    · rw [Function.update_of_ne hne, Function.update_of_ne hne]
      exact hI.base u
  · obtain ⟨hne, hplace⟩ := hkeep u _ hu
    rw [htimer, Function.update_of_ne hne]
    exact hI.expires u k i hplace
  · exact hI.idle (hloop.symm.trans hout) u (hkeep u _ hu).2

/-- The tick in which a timer is to run that is set now. -/
def dueAt (n : ℕ) (s : Timers T) (expires : BitVec 32) : ℕ :=
  if (expires - s.timerJiffies).msb then n else n + (expires - s.timerJiffies).toNat

omit [DecidableEq T] in
theorem dueAt_spec (hI : Inv n due place s) (expires : BitVec 32) :
    n ≤ dueAt n s expires ∧ dueAt n s expires < n + 2 ^ 31 ∧
      BitVec.ofNat 32 (dueAt n s expires) = s.due expires := by
  rw [dueAt, Timers.due]
  split
  next => exact ⟨le_refl n, by omega, hI.now.symm⟩
  next h =>
    have hlow : (expires - s.timerJiffies).toNat < 2 ^ 31 := by
      simpa [BitVec.msb_eq_decide] using h
    refine ⟨by omega, by omega, ?_⟩
    rw [BitVec.ofNat_add, ← hI.now, BitVec.ofNat_toNat, BitVec.setWidth_eq]
    rw [BitVec.add_comm, BitVec.sub_add_cancel]

/-- **A timer is set.** -/
theorem Inv.rawModTimer (hI : Inv n due place s) (t : T) (expires : BitVec 32) :
    ∃ p, Inv n (Function.update due t (dueAt n s expires)) (Function.update place t (some p))
      (s.rawModTimer t expires) := by
  obtain ⟨hle, hlt, hdue⟩ := dueAt_spec hI expires
  set d := dueAt n s expires with hd
  set p := slot s.timerJiffies expires with hp
  -- the slot of a time that has passed is that of the next tick
  have hslot : PlacedAt n d p ∧ ∀ k i, p = .tvn k i → expires = BitVec.ofNat 32 d := by
    rw [hdue]
    by_cases hmsb : (expires - s.timerJiffies).msb
    · have hn : d = n := by rw [hd, dueAt, if_pos hmsb]
      rw [hp, slot_of_msb hmsb, hn]
      refine ⟨⟨by omega, by omega, ?_⟩, nofun⟩
      rw [hI.now, tvrIndex_ofNat]
    · have hexpires : s.due expires = expires := if_neg hmsb
      rw [hexpires] at hdue ⊢
      refine ⟨?_, fun _ _ _ => rfl⟩
      rw [hp, hI.now, ← hdue]
      exact placedAt_slot hle hlt
  have hother : ∀ u q, u ≠ t → Function.update place t (some p) u = some q → place u = some q :=
    fun u q hne hu => by rwa [Function.update_of_ne hne] at hu
  have hself : ∀ q, Function.update place t (some p) t = some q → p = q := fun q ht => by
    rw [Function.update_self] at ht
    exact Option.some.inj ht
  -- the list it was in
  set s₁ := if (s.timer t).base then s.listDel t else s with hs₁
  have hlinked : Linked (Function.update place t none) s₁.list := by
    rw [hs₁]
    split
    next => exact hI.linked.erase t
    next hbase =>
      have hnone : place t = none := by
        rw [hI.base] at hbase
        simpa using hbase
      rw [← hnone, Function.update_eq_self]
      exact hI.linked
  have hframe : s₁.timerJiffies = s.timerJiffies ∧ s₁.inLoop = s.inLoop ∧ s₁.timer = s.timer := by
    rw [hs₁]
    split <;> exact ⟨rfl, rfl, rfl⟩
  set s₂ : Timers T :=
    { s₁ with timer := Function.update s₁.timer t { s₁.timer t with expires := expires } } with hs₂
  have hadd : Linked (Function.update place t (some p)) (s₂.internalAddTimer t).list := by
    have hp₂ : slot s₂.timerJiffies (s₂.timer t).expires = p := by
      simp only [hs₂, Function.update_self, hframe.1, hp]
    have hpush := hlinked.push (t := t) (Function.update_self ..) p
    rw [Function.update_idem, ← hp₂] at hpush
    rw [← hp₂]
    exact hpush
  have htimer : (s.rawModTimer t expires).timer =
      Function.update s.timer t ⟨expires, true⟩ := by
    change Function.update s₂.timer t { s₂.timer t with base := true } = _
    simp only [hs₂, Function.update_idem, Function.update_self, hframe.2.2]
  refine ⟨p, hadd, hframe.1.trans hI.now, fun u => ?_, fun u q hu => ?_,
    fun u q hu => ?_, fun u k i hu => ?_, fun hout u hu => ?_⟩
  · rw [htimer]
    rcases eq_or_ne u t with rfl | hne
    · rw [Function.update_self, Function.update_self]
      rfl
    · rw [Function.update_of_ne hne, Function.update_of_ne hne]
      exact hI.base u
  · rcases eq_or_ne u t with rfl | hne
    · rw [Function.update_self, ← hself q hu]
      exact hslot.1
    · rw [Function.update_of_ne hne]
      exact hI.placed u q (hother u q hne hu)
  · rcases eq_or_ne u t with rfl | hne
    · rw [Function.update_self]
      exact hlt
    · rw [Function.update_of_ne hne]
      exact hI.near u q (hother u q hne hu)
  · rw [htimer]
    rcases eq_or_ne u t with rfl | hne
    · rw [Function.update_self, Function.update_self]
      exact hslot.2 k i (hself _ hu)
    · rw [Function.update_of_ne hne, Function.update_of_ne hne]
      exact hI.expires u k i (hother u _ hne hu)
  · rcases eq_or_ne u t with rfl | hne
    · exact slot_ne_work _ _ (hself _ hu)
    · exact hI.idle (hframe.2.1.symm.trans hout) u (hother u _ hne hu)

/-- What a step does to a timer that it does not set nor delete: it calls the function of the timer
in the tick for which the timer was set, or leaves the timer pending or not pending. -/
def Keeps (due due' : T → ℕ) (place place' : T → Option TimerPlace) (l : List (T × BitVec 32))
    (t : T) : Prop :=
  due' t = due t ∧
    ((place' t).isSome = (place t).isSome ∧ (∀ x ∈ l, x.1 ≠ t) ∨
      (place t).isSome ∧ place' t = none ∧ l = [(t, BitVec.ofNat 32 (due t))])

omit [DecidableEq T] in
theorem keeps_refl (due : T → ℕ) (place : T → Option TimerPlace) (t : T) :
    Keeps due due place place [] t := ⟨rfl, .inl ⟨rfl, nofun⟩⟩

omit [DecidableEq T] in
/-- Nothing happens to the timers. -/
theorem Inv.congr (hI : Inv n due place s) (hlist : s'.list = s.list)
    (hnow : s'.timerJiffies = s.timerJiffies) (htimer : s'.timer = s.timer)
    (hidle : s'.inLoop = false → ∀ t, place t ≠ some .work) : Inv n due place s' := by
  refine ⟨hlist ▸ hI.linked, hnow.trans hI.now, fun t => ?_, hI.placed, hI.near,
    fun t k i ht => ?_, hidle⟩
  · rw [htimer]
    exact hI.base t
  · rw [htimer]
    exact hI.expires t k i ht

/-- The function of the first timer of the `work_list` is called. -/
theorem Inv.call (hI : Inv n due place s) {q : List T} (hwork : s.list .work = t :: q)
    (hlist : s'.list = Function.update s.list .work q)
    (hnow : s'.timerJiffies = s.timerJiffies) (hloop : s'.inLoop = s.inLoop)
    (htimer : s'.timer = Function.update s.timer t { s.timer t with base := false }) :
    Inv n due (Function.update place t none) s' ∧ (place t).isSome ∧
      s.timerJiffies - 1 = BitVec.ofNat 32 (due t) := by
  have hplace : place t = some .work := by
    rw [← hI.linked.mem_iff, hwork]
    exact List.mem_cons_self
  have hdue : due t + 1 = n := hI.placed t _ hplace
  refine ⟨hI.remove (hlist ▸ hI.linked.pop hwork) hnow hloop htimer, by rw [hplace]; rfl, ?_⟩
  rw [hI.now, ← hdue, BitVec.ofNat_add]
  exact BitVec.add_sub_cancel _ _

/-- Setting another timer. -/
theorem keeps_set {e : BitVec 32} {p : TimerPlace} (hne : t ≠ u) :
    Keeps due (Function.update due u (dueAt n s e)) place (Function.update place u (some p)) [] t :=
  ⟨Function.update_of_ne hne .., .inl ⟨by rw [Function.update_of_ne hne], nofun⟩⟩

/-- **One step.** -/
theorem Inv.step (hI : Inv n due place s) (h : s.step a = some s') :
    ∃ n' due' place', Inv n' due' place' s' ∧
      ∀ t, ¬ a.On t → Keeps due due' place place' (s.calls a) t := by
  cases a with
  | clock j =>
    cases h
    exact ⟨n, due, place, hI.congr rfl rfl rfl hI.idle, fun t _ => keeps_refl due place t⟩
  | rawModTimer u e =>
    cases h
    obtain ⟨p, hinv⟩ := hI.rawModTimer u e
    exact ⟨n, _, _, hinv, fun t ht => keeps_set fun hu => ht (.inl hu.symm)⟩
  | modTimer u e =>
    simp only [Timers.step] at h
    split at h <;> cases h
    · exact ⟨n, due, place, hI, fun t _ => keeps_refl due place t⟩
    · obtain ⟨p, hinv⟩ := hI.rawModTimer u e
      exact ⟨n, _, _, hinv, fun t ht => keeps_set fun hu => ht (.inl hu.symm)⟩
  | delTimer u =>
    simp only [Timers.step] at h
    split at h <;> cases h
    · refine ⟨n, due, _, hI.remove (hI.linked.erase u) rfl rfl rfl, fun t ht => ?_⟩
      have hne : t ≠ u := fun hu => ht (.inr (by rw [hu]))
      exact ⟨rfl, .inl ⟨by rw [Function.update_of_ne hne], nofun⟩⟩
    · exact ⟨n, due, place, hI, fun t _ => keeps_refl due place t⟩
  | runTimerSoftirq =>
    simp only [Timers.step] at h
    split_ifs at h <;> cases h
    · exact ⟨n, due, place, hI.congr rfl rfl rfl nofun, fun t _ => keeps_refl due place t⟩
    · exact ⟨n, due, place, hI, fun t _ => keeps_refl due place t⟩
  | next =>
    simp only [Timers.step] at h
    split at h
    next hloop =>
      split at h
      next u q hwork =>
        rw [Option.some.injEq] at h
        obtain ⟨hinv, hsome, hnow⟩ := hI.call hwork (congrArg Timers.list h).symm
          (congrArg Timers.timerJiffies h).symm (congrArg Timers.inLoop h).symm
          (congrArg Timers.timer h).symm
        have hcalls : s.calls .next = [(u, BitVec.ofNat 32 (due u))] := by
          simp only [calls, hloop, hwork, hnow]
        refine ⟨n, due, _, hinv, fun t _ => ⟨rfl, ?_⟩⟩
        rcases eq_or_ne t u with rfl | hne
        · exact .inr ⟨hsome, Function.update_self .., hcalls⟩
        · refine .inl ⟨by rw [Function.update_of_ne hne], fun x hx => ?_⟩
          rw [hcalls, List.mem_singleton] at hx
          rw [hx]
          exact hne.symm
      next hwork =>
        have hcalls : s.calls .next = [] := by simp only [calls, hloop, hwork]
        rw [hcalls]
        split at h <;> cases h
        · obtain ⟨place', hinv, hsome⟩ := hI.tick hloop hwork
          exact ⟨n + 1, due, place', hinv, fun t _ => ⟨rfl, .inl ⟨hsome t, nofun⟩⟩⟩
        · refine ⟨n, due, place, hI.congr rfl rfl rfl fun _ t ht => ?_, fun t _ =>
            keeps_refl due place t⟩
          have hmem := (hI.linked.mem_iff _ t).2 ht
          rw [hwork] at hmem
          cases hmem
    next => cases h

/-! ### Runs -/

theorem inv_init (j : BitVec 32) :
    Inv j.toNat (fun _ => 0) (fun _ => none) (machine T j).init where
  linked := ⟨fun _ _ => ⟨nofun, nofun⟩, fun _ => List.nodup_nil⟩
  now := by
    rw [BitVec.ofNat_toNat, BitVec.setWidth_eq]
    rfl
  base _ := rfl
  placed := nofun
  near := nofun
  expires := nofun
  idle := nofun

theorem inv_of_exec {j : BitVec 32} {as : List (TimerAct T)}
    (hrun : (machine T j).exec (machine T j).init as = some s) :
    ∃ n due place, Inv n due place s := by
  refine (Machine.run_anyStep_iff.2 hrun).invariant
    (I := fun s => ∃ n due place, Inv n due place s) ?_ ⟨_, _, _, inv_init j⟩
  rintro s a s' ⟨n, due, place, hI⟩ - hst
  obtain ⟨n', due', place', hI', -⟩ := hI.step hst
  exact ⟨n', due', place', hI'⟩

/-- The calls of the function of one timer. -/
def callsOf (t : T) (l : List (T × BitVec 32)) : List (T × BitVec 32) := l.filter (·.1 = t)

/-- It is as the calls say: the timer is to run in the tick `d`, or has run. -/
def Promise (t : T) (d : ℕ) (l : List (T × BitVec 32)) (s : Timers T) : Prop :=
  ∃ n due place, Inv n due place s ∧ due t = d ∧
    callsOf t l = if (place t).isSome then [] else [(t, BitVec.ofNat 32 d)]

/-- As long as nobody sets or deletes the timer it runs as promised. -/
theorem Promise.step {l : List (T × BitVec 32)} (h : Promise t d l s) (hno : ¬ a.On t)
    (hst : s.step a = some s') : Promise t d (l ++ s.calls a) s' := by
  obtain ⟨n, due, place, hI, rfl, hl⟩ := h
  obtain ⟨n', due', place', hI', hkeeps⟩ := hI.step hst
  obtain ⟨hdue, hcases⟩ := hkeeps t hno
  refine ⟨n', due', place', hI', hdue, ?_⟩
  rw [callsOf, List.filter_append, ← callsOf, hl]
  rcases hcases with ⟨hsome, hother⟩ | ⟨hsome, hnone, hcalls⟩
  · have hnil : (s.calls a).filter (fun x => decide (x.1 = t)) = [] :=
      List.filter_eq_nil_iff.2 fun x hx => by simpa using hother x hx
    rw [hsome, hnil, List.append_nil]
  · rw [hsome, hnone, hcalls]
    simp

/-- One timer runs in the first tick after 255, another one is moved down to `tv1` there. -/
def twoTimers : List (TimerAct (Fin 2)) := [.clock 256, .runTimerSoftirq, .next, .next, .next]

/-- It is not pending, and its function has not been called. -/
def Silent (t : T) (l : List (T × BitVec 32)) (s : Timers T) : Prop :=
  ∃ n due place, Inv n due place s ∧ place t = none ∧ callsOf t l = []

theorem Silent.step {l : List (T × BitVec 32)} (h : Silent t l s) (hno : ¬ a.Sets t)
    (hst : s.step a = some s') : Silent t (l ++ s.calls a) s' := by
  obtain ⟨n, due, place, hI, hnone, hl⟩ := h
  by_cases hdel : a = .delTimer t
  · -- it is deleted again
    subst hdel
    have hbase : ¬ (s.timer t).base = true := by simp [hI.base, hnone]
    rw [Timers.step, if_neg hbase] at hst
    cases hst
    refine ⟨n, due, place, hI, hnone, ?_⟩
    rw [show s.calls (.delTimer t) = [] from rfl, List.append_nil]
    exact hl
  obtain ⟨n', due', place', hI', hkeeps⟩ := hI.step hst
  obtain ⟨-, hcases⟩ := hkeeps t fun hon => hon.elim hno hdel
  rw [hnone] at hcases
  obtain ⟨hsome, hother⟩ := hcases.resolve_right fun h => by cases h.1
  have hnil : (s.calls a).filter (fun x => decide (x.1 = t)) = [] :=
    List.filter_eq_nil_iff.2 fun x hx => by simpa using hother x hx
  have hgone : place' t = none := by simpa using hsome
  refine ⟨n', due', place', hI', hgone, ?_⟩
  rw [callsOf, List.filter_append, ← callsOf, hl, hnil, List.append_nil]

end Timers

end LxApi32
