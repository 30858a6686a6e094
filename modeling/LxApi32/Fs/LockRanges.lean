import LxApi32.Fs.LockSafety
import LxApi32.Lib.Together
import Mathlib.Data.List.Pairwise
import Mathlib.Data.List.TakeWhile

/-!
# The bytes that a POSIX lock is for

A granted request is for each byte of its range, and for no other one.  The comparison with the end
of the request overflows for a request up to `OFFSET_MAX`, so that the loop ends at the first lock
of the same type that it would have to be put together with.

* `FileLocks.lockMap_act` : the lists of locks are a map from files, owners and bytes to types, as
  long as there is no such lock.
-/

namespace LxApi32

namespace FileLocks

open FileLock (offsetMax loff posixSameOwner posixLocksConflict setRange)

variable {I : Type*} {l l' : List FileLock} {n m : ℕ} {x y fl : FileLock} {k : ℕ × ℕ}
  {t : LockType} {b : ℤ} {T : ℤ → LockType → Prop}

/-- A byte is locked. -/
def HeldIn (l : List FileLock) (t : LockType) (b : ℤ) : Prop :=
  ∃ x ∈ l, x.flType = t ∧ x.flStart ≤ b ∧ b ≤ x.flEnd

/-- In order, and without a common byte. -/
def Sorted (l : List FileLock) : Prop := l.Pairwise fun x y => x.flEnd < y.flStart

theorem heldIn_append : HeldIn (l ++ l') t b ↔ HeldIn l t b ∨ HeldIn l' t b := by
  simp only [HeldIn, List.mem_append, or_and_right, exists_or]

theorem heldIn_cons : HeldIn (x :: l) t b ↔
    (x.flType = t ∧ x.flStart ≤ b ∧ b ≤ x.flEnd) ∨ HeldIn l t b := by
  simp only [HeldIn, List.mem_cons, or_and_right, exists_or, exists_eq_left]

theorem heldIn_nil : ¬ HeldIn [] t b := by simp [HeldIn]

theorem modify_append (f : FileLock → FileLock) :
    modify (l ++ l') m f = modify l m f ++ modify l' m f := List.map_append

theorem modify_eq_self {f : FileLock → FileLock} (h : ∀ x ∈ l, x.id ≠ m) : modify l m f = l :=
  (List.map_congr_left fun x hx => if_neg (h x hx)).trans (List.map_id _)

namespace Scan

variable {c : Scan I} {rest done : List FileLock} {own : Bool}

/-- The request covers the byte. -/
def In (c : Scan I) (b : ℤ) : Prop := c.request.flStart ≤ b ∧ b ≤ c.request.flEnd

/-- What is true whenever the loop comes to the next lock of the owner: `done` are the locks left
behind, without the request if it is one of them, and `T` is what has to come out. -/
structure Loop (T : ℤ → LockType → Prop) (c : Scan I) (own : Bool) (done rest : List FileLock) :
    Prop where
  front : c.front = done ++ if own then [c.request] else []
  ofOwn : own = true → c.added = true
  added : c.added = true → own = true ∨ c.request.flType = .unlck
  sorted : Sorted (done ++ rest)
  range : ∀ x ∈ done ++ rest, x.flStart ≤ x.flEnd
  key : ∀ x ∈ done ++ rest, x.key = c.request.key
  before : ∀ x ∈ done, c.left = some x.id ∨ x.flEnd < c.request.flStart
  left : ∀ x ∈ done, c.left = some x.id → x.flStart < c.request.flStart ∧
    c.request.flStart ≤ x.flEnd ∧ x.flEnd ≤ c.request.flEnd
  leftDone : ∀ id, c.left = some id → ∃ x ∈ done, x.id = id
  after : c.added = true ∨ c.left ≠ none → ∀ y ∈ rest, c.request.flStart ≤ y.flStart
  unlck : c.request.flType = .unlck → c.left ≠ none → c.added = true
  noWrap : c.request.flEnd = offsetMax → ∀ y ∈ rest, c.request.flType = y.flType →
    y.flEnd < c.request.flStart - 1
  target : ∀ b t, T b t ↔ c.In b ∧ t = c.request.flType ∧ t ≠ .unlck ∨
    ¬ c.In b ∧ HeldIn (done ++ rest) t b

theorem Loop.pass (h : c.Loop T own done (fl :: rest)) (hlt : fl.flEnd < c.request.flStart) :
    (c.pass fl).Loop T false (done ++ [fl]) rest := by
  have hfl := h.range fl (List.mem_append_right _ List.mem_cons_self)
  have hfirst : ¬ (c.added = true ∨ c.left ≠ none) := fun hor => by
    have := h.after hor fl List.mem_cons_self
    omega
  have hlist : done ++ [fl] ++ rest = done ++ fl :: rest := List.append_assoc ..
  have hown : own = false := by
    by_contra hne
    exact hfirst (.inl (h.ofOwn (eq_true_of_ne_false hne)))
  have hleft : ∀ id, c.left ≠ some id := fun id hid => hfirst (.inr (by rw [hid]; nofun))
  refine ⟨?_, nofun, fun hadded => absurd (.inl hadded) hfirst, hlist ▸ h.sorted,
    hlist ▸ h.range, hlist ▸ h.key, fun x hx => ?_, fun x _ hid => absurd hid (hleft _),
    fun id hid => absurd hid (hleft _), fun hor => absurd hor hfirst, h.unlck,
    fun hmax y hy => h.noWrap hmax y (List.mem_cons_of_mem _ hy), hlist ▸ h.target⟩
  · have := h.front
    simp only [hown, Bool.false_eq_true, if_false, List.append_nil] at this ⊢
    rw [Scan.pass, this]
  · rcases List.mem_append.1 hx with hx | hx
    · exact h.before x hx
    · obtain rfl := List.mem_singleton.1 hx
      exact .inr hlt

theorem Loop.request_le (h : c.Loop T own done (fl :: rest))
    (hor : c.added = true ∨ c.left ≠ none) : c.request.flStart ≤ fl.flStart :=
  h.after hor fl List.mem_cons_self

/-- What is in order with the lock is in order without it. -/
theorem Loop.sorted_erase (h : c.Loop T own done (fl :: rest)) :
    Sorted (done ++ rest) ∧ (∀ x ∈ done, x.flEnd < fl.flStart) ∧
      ∀ y ∈ rest, fl.flEnd < y.flStart := by
  have hsorted := List.pairwise_append.1 h.sorted
  exact ⟨h.sorted.sublist ((List.sublist_cons_self fl rest).append_left done),
    fun x hx => hsorted.2.2 x hx fl List.mem_cons_self,
    fun y hy => List.rel_of_pairwise_cons hsorted.2.1 hy⟩

theorem mem_erase (hx : x ∈ done ++ rest) : x ∈ done ++ fl :: rest := by
  rw [List.mem_append] at hx ⊢
  exact hx.imp id (List.mem_cons_of_mem _)

/-- The lock of the same type goes, and the request has its bytes. -/
theorem Loop.hull {c' : Scan I} (h : c.Loop T own done (fl :: rest))
    (hmax : ∀ x ∈ fl :: rest, x.flEnd ≤ offsetMax) (htype : fl.flType ≠ .unlck)
    (hsame : c.request.flType = fl.flType) (hleft : c.request.flStart - 1 ≤ fl.flEnd)
    (hright : fl.flStart ≤ c.request.flEnd + 1) (hrange : c.request.flStart ≤ c.request.flEnd)
    (hfront : c'.front = done ++ [c'.request]) (hadded : c'.added = true)
    (hleft' : c'.left = c.left) (htype' : c'.request.flType = c.request.flType)
    (hkey' : c'.request.key = c.request.key)
    (hstart' : c'.request.flStart = min c.request.flStart fl.flStart)
    (hend' : c'.request.flEnd = max c.request.flEnd fl.flEnd) : c'.Loop T true done rest := by
  have hfl := h.range fl (List.mem_append_right _ List.mem_cons_self)
  have hflmax := hmax fl List.mem_cons_self
  obtain ⟨hsorted, hdone, hrest⟩ := h.sorted_erase
  refine ⟨hfront, fun _ => hadded, fun _ => .inl rfl, hsorted, fun x hx => h.range x (mem_erase hx),
    fun x hx => (h.key x (mem_erase hx)).trans hkey'.symm, fun x hx => ?_,
    fun x hx hid => ?_, fun id hid => h.leftDone id (hleft' ▸ hid),
    fun _ y hy => ?_, fun hunlck => ?_, fun hmax' y hy _ => ?_, fun b t => ?_⟩
  · rw [hleft']
    have := hdone x hx
    exact (h.before x hx).imp id fun _ => by omega
  · rw [hleft'] at hid
    have := h.left x hx hid
    have := h.request_le (.inr (by rw [hid]; nofun))
    omega
  · have := hrest y hy
    omega
  · exact absurd (hsame.symm.trans (htype'.symm.trans hunlck)) htype
  · -- behind the last byte there is no lock
    have := h.noWrap
    have := hrest y hy
    have := hmax y (List.mem_cons_of_mem _ hy)
    have := h.range y (List.mem_append_right _ (List.mem_cons_of_mem _ hy))
    have hno : c.request.flEnd ≠ offsetMax := fun heq => by
      have := h.noWrap heq fl List.mem_cons_self hsame
      omega
    omega
  · rw [h.target]
    unfold In
    rw [hstart', hend', htype', heldIn_append, heldIn_append, heldIn_cons]
    constructor
    · rintro (⟨hin, htb⟩ | ⟨hout, hheld | ⟨hty, hcov⟩ | hheld⟩)
      · exact .inl ⟨by omega, htb⟩
      · refine .inr ⟨?_, .inl hheld⟩
        obtain ⟨x, hx, -, hcov⟩ := hheld
        have := hdone x hx
        rcases h.before x hx with hid | hlt
        · have := h.left x hx hid
          have := h.request_le (.inr (by rw [hid]; nofun))
          omega
        · omega
      · exact .inl ⟨by omega, hty.symm.trans hsame.symm, hty ▸ htype⟩
      · refine .inr ⟨?_, .inr hheld⟩
        obtain ⟨x, hx, -, hcov⟩ := hheld
        have := hrest x hx
        omega
    · rintro (⟨hin, htb⟩ | ⟨hout, hheld⟩)
      · by_cases hb : c.request.flStart ≤ b ∧ b ≤ c.request.flEnd
        · exact .inl ⟨hb, htb⟩
        · exact .inr ⟨hb, .inr (.inl ⟨hsame.symm.trans htb.1.symm, by omega⟩)⟩
      · exact .inr ⟨by omega, hheld.imp id .inr⟩

/-- The lock of another type in the range goes. -/
theorem Loop.cover {c' : Scan I} {own' : Bool} (h : c.Loop T own done (fl :: rest))
    (hleft : c.request.flStart ≤ fl.flStart) (hright : fl.flEnd ≤ c.request.flEnd)
    (hfront : c'.front = done ++ if own' then [c'.request] else []) (hadded : c'.added = true)
    (hown : own' = true ∨ c.request.flType = .unlck) (hleft' : c'.left = c.left)
    (htype' : c'.request.flType = c.request.flType) (hkey' : c'.request.key = c.request.key)
    (hstart' : c'.request.flStart = c.request.flStart)
    (hend' : c'.request.flEnd = c.request.flEnd) : c'.Loop T own' done rest := by
  have hfl := h.range fl (List.mem_append_right _ List.mem_cons_self)
  obtain ⟨hsorted, hdone, hrest⟩ := h.sorted_erase
  refine ⟨hfront, fun _ => hadded, fun _ => htype' ▸ hown, hsorted,
    fun x hx => h.range x (mem_erase hx), fun x hx => (h.key x (mem_erase hx)).trans hkey'.symm,
    fun x hx => ?_, fun x hx hid => ?_, fun id hid => h.leftDone id (hleft' ▸ hid),
    fun _ y hy => ?_, fun _ _ => hadded,
    fun hmax y hy => ?_, fun b t => ?_⟩
  · rw [hleft', hstart']
    exact h.before x hx
  · rw [hstart', hend']
    exact h.left x hx (hleft' ▸ hid)
  · have := hrest y hy
    omega
  · rw [htype', hstart']
    exact h.noWrap (hend' ▸ hmax) y (List.mem_cons_of_mem _ hy)
  · rw [h.target]
    unfold In
    rw [hstart', hend', htype', heldIn_append, heldIn_append, heldIn_cons]
    refine or_congr Iff.rfl (and_congr_right fun hout => or_congr Iff.rfl ?_)
    refine or_iff_right fun hcov => hout ?_
    omega

/-- A lock of another type sticks out to the left. -/
theorem Loop.stick (h : c.Loop T own done (fl :: rest)) (hid : ∀ x ∈ done, x.id ≠ fl.id)
    (hlt : fl.flStart < c.request.flStart) (hleft : c.request.flStart ≤ fl.flEnd)
    (hright : fl.flEnd ≤ c.request.flEnd) :
    ((c.touch fl).pass fl).Loop T false (done ++ [fl]) rest := by
  have hfirst : ¬ (c.added = true ∨ c.left ≠ none) := fun hor => by
    have := h.request_le hor
    omega
  have hlist : done ++ [fl] ++ rest = done ++ fl :: rest := List.append_assoc ..
  have hown : own = false := by
    by_contra hne
    exact hfirst (.inl (h.ofOwn (eq_true_of_ne_false hne)))
  have hadded : c.added = false := eq_false_of_ne_true fun h => hfirst (.inl h)
  have hleft' : (c.touch fl).left = some fl.id := if_pos hlt
  have hadded' : (c.touch fl).added = decide (c.request.flType = .unlck) := by
    simp only [Scan.touch, hadded, Bool.false_or]
  obtain ⟨-, -, hrest⟩ := h.sorted_erase
  refine ⟨?_, fun hf => absurd hf Bool.false_ne_true,
    fun ha => .inr (of_decide_eq_true (hadded'.symm.trans ha)), hlist ▸ h.sorted, hlist ▸ h.range,
    hlist ▸ h.key, fun x hx => ?_, fun x hx hx' => ?_, fun id hx => ?_,
    fun _ y hy => ?_, fun hunlck _ => hadded'.trans (decide_eq_true hunlck),
    fun hmax y hy => h.noWrap hmax y (List.mem_cons_of_mem _ hy), hlist ▸ h.target⟩
  · have := h.front
    simp only [hown, Bool.false_eq_true, if_false, List.append_nil] at this ⊢
    rw [Scan.pass, Scan.touch, this]
  · rcases List.mem_append.1 hx with hx | hx
    · refine .inr ((h.before x hx).resolve_left fun hl => hfirst (.inr ?_))
      rw [hl]
      exact Option.some_ne_none _
    · exact .inl (List.mem_singleton.1 hx ▸ hleft')
  · rcases List.mem_append.1 hx with hx | hx
    · exact absurd (Option.some.inj (hleft'.symm.trans hx')).symm (hid x hx)
    · obtain rfl := List.mem_singleton.1 hx
      exact ⟨hlt, hleft, hright⟩
  · exact ⟨fl, List.mem_append_right _ List.mem_cons_self,
      Option.some.inj (hleft'.symm.trans hx)⟩
  · have := hrest y hy
    change c.request.flStart ≤ y.flStart
    omega

/-- The end of the loop: the rest lies behind the request, or its first lock sticks out of it. -/
inductive Ended (T : ℤ → LockType → Prop) :
    Scan I → Option FileLock → Bool → List FileLock → List FileLock → Prop
  | beyond {c : Scan I} {own : Bool} {done rest : List FileLock} (h : c.Loop T own done rest)
      (hbeyond : ∀ y ∈ rest, c.request.flEnd < y.flStart) : Ended T c none own done rest
  | sticks {c : Scan I} {own : Bool} {done rest : List FileLock} {fl : FileLock}
      (h : c.Loop T own done (fl :: rest)) (hleft : c.request.flStart ≤ fl.flEnd)
      (hright : fl.flStart ≤ c.request.flEnd) (hlt : c.request.flEnd < fl.flEnd) :
      Ended T (c.touch fl) (some fl) own done (fl :: rest)

theorem Loop.visit {B : List FileLock} (h : c.Loop T own done (fl :: rest))
    (hok : c.Ok (fl :: (rest ++ B)) n) :
    (∀ c', c.visit fl = (c', none) → ∃ own' done', c'.Loop T own' done' rest) ∧
      ∀ c' right, c.visit fl = (c', some right) → Ended T c' right own done (fl :: rest) := by
  have hfl : fl ∈ c.front ++ fl :: (rest ++ B) := List.mem_append_right _ List.mem_cons_self
  have hdone : ∀ x ∈ done, x ∈ c.front := fun x hx => by
    rw [h.front]
    exact List.mem_append_left _ hx
  have hkey : c.request.key = fl.key :=
    (h.key fl (List.mem_append_right _ List.mem_cons_self)).symm
  have hid : ∀ x ∈ done, x.id ≠ fl.id := fun x hx heq => by
    have := hok.nodup
    rw [List.map_append, List.map_cons, List.nodup_append'] at this
    exact this.2.2 (List.mem_map_of_mem (hdone x hx)) (heq ▸ List.mem_cons_self)
  have hv := visited hok
  refine ⟨fun c' heq => ?_, fun c' right heq => ?_⟩
  · rw [heq] at hv
    cases hv with
    | before hlt => exact ⟨_, _, h.pass hlt⟩
    | merge hsame hleft hright =>
      refine ⟨true, done, ?_⟩
      have hmax : ∀ x ∈ fl :: rest, x.flEnd ≤ offsetMax := fun x hx =>
        (hok.bounds x (List.mem_append_right _ (List.mem_append_left B hx))).2
      have htype := hok.type fl hfl
      cases hadded : c.added with
      | true =>
        have hown := (h.added hadded).resolve_right (hsame ▸ htype)
        have hfront := h.front
        rw [if_pos hown] at hfront
        have hne : ∀ x ∈ done, x.id ≠ c.request.id := fun x hx heq => by
          have := hok.nodup
          rw [hfront] at this
          simp only [List.map_append, List.append_assoc, List.map_cons, List.map_nil] at this
          exact (List.nodup_append'.1 this).2.2 (List.mem_map_of_mem hx)
            (heq ▸ List.mem_append_left _ List.mem_cons_self)
        rw [merge_of_added hadded]
        refine h.hull hmax htype hsame hleft hright hok.range ?_ hadded rfl rfl rfl rfl rfl
        change modify c.front c.request.id _ = _
        rw [hfront, modify_append, modify_eq_self hne]
        exact congrArg (done ++ ·) (congrArg (fun x => [x]) (if_pos rfl))
      | false =>
        have hown : own = false := by
          by_contra hne
          exact absurd (h.ofOwn (eq_true_of_ne_false hne)) (by rw [hadded]; nofun)
        have hfront := h.front
        simp only [hown, Bool.false_eq_true, if_false, List.append_nil] at hfront
        rw [hok.merge_of_new hadded]
        refine h.hull hmax htype hsame hleft hright hok.range ?_ rfl rfl hsame.symm hkey.symm rfl
          rfl
        change c.front ++ _ = _
        rw [hfront]
        rfl
    | replace hne hleft hright hmeet =>
      have htouch : (c.touch fl).left = c.left := if_neg (not_lt.2 hleft)
      unfold Scan.replace
      split
      next hadded =>
        refine ⟨own, done, h.cover hleft hright h.front hadded ?_ htouch rfl rfl rfl rfl⟩
        cases hadd : c.added with
        | true => exact h.added hadd
        | false =>
          simp only [Scan.touch, hadd, Bool.false_or] at hadded
          exact .inr (of_decide_eq_true hadded)
      next hadded =>
        have hadd : c.added = false :=
          eq_false_of_ne_true fun ha => hadded (by simp [Scan.touch, ha])
        have hown : own = false := by
          by_contra hne
          exact absurd (h.ofOwn (eq_true_of_ne_false hne)) (by rw [hadd]; nofun)
        have hfront := h.front
        simp only [hown, Bool.false_eq_true, if_false, List.append_nil] at hfront
        refine ⟨true, done, h.cover hleft hright ?_ rfl (.inl rfl) htouch rfl hkey.symm rfl rfl⟩
        change c.front ++ _ = _
        rw [hfront]
        rfl
    | left hne hlt hleft hright => exact ⟨_, _, h.stick hid hlt hleft hright⟩
  · rw [heq] at hv
    cases hv with
    | beyond hsame hother =>
      have hlast := hok.last
      have hlt : c.request.flEnd < fl.flStart := by
        by_cases htype : c.request.flType = fl.flType
        · obtain ⟨hge, hlt⟩ := hsame htype
          have hno : c.request.flEnd ≠ offsetMax := fun hmax => by
            have := h.noWrap hmax fl List.mem_cons_self htype
            omega
          have := hok.start
          have := hok.range
          rw [FileLock.loff_of_lt (by omega) (by omega)] at hlt
          omega
        · exact hother htype
      refine .beyond h fun y hy => ?_
      rcases List.mem_cons.1 hy with rfl | hy
      · exact hlt
      · have := h.sorted_erase.2.2 y hy
        have := h.range fl (List.mem_append_right _ List.mem_cons_self)
        omega
    | right hne hleft hright hlt => exact .sticks h hleft hright hlt

theorem Loop.scan {B : List FileLock} (h : c.Loop T own done rest) (hok : c.Ok (rest ++ B) n)
    (hB : ∀ y ∈ B.head?, y.key ≠ c.request.key) :
    ∃ own' done' rest', (c.scan (rest ++ B)).2.2 = rest' ++ B ∧
      Ended T (c.scan (rest ++ B)).1 (c.scan (rest ++ B)).2.1 own' done' rest' := by
  induction rest generalizing c own done with
  | nil =>
    refine ⟨own, done, [], ?_⟩
    cases B with
    | nil => exact ⟨rfl, .beyond h nofun⟩
    | cons y B =>
      have hne := hB y rfl
      rw [List.nil_append, Scan.scan, if_neg fun hsame =>
        hne (FileLock.posixSameOwner_iff.1 hsame).symm]
      exact ⟨rfl, .beyond h nofun⟩
  | cons fl rest ih =>
    have hkey : c.request.key = fl.key :=
      (h.key fl (List.mem_append_right _ List.mem_cons_self)).symm
    obtain ⟨hgo, hstop⟩ := h.visit hok
    rw [List.cons_append, Scan.scan, if_pos (FileLock.posixSameOwner_iff.2 hkey)]
    split
    next c' heq =>
      obtain ⟨own', done', h'⟩ := hgo c' heq
      have hfollows := (hok.visit hkey).1 c' heq
      exact ih h' hfollows.ok (by rwa [hfollows.key])
    next c' right heq => exact ⟨own, done, fl :: rest, rfl, hstop c' right heq⟩

/-! ### The list afterwards -/

/-- The locks of the owner: in order, and for the bytes of `T`. -/
structure Tight (T : ℤ → LockType → Prop) (k : ℕ × ℕ) (l : List FileLock) : Prop where
  sorted : Sorted l
  range : ∀ x ∈ l, x.flStart ≤ x.flEnd
  key : ∀ x ∈ l, x.key = k
  held : ∀ b t, T b t ↔ HeldIn l t b

/-- The request between what is left in front of it and behind it. -/
theorem tight {D Q S : List FileLock} (hD : Sorted D) (hS : Sorted S)
    (hrange : ∀ x, x ∈ D ∨ x ∈ S → x.flStart ≤ x.flEnd) (hkey : ∀ x, x ∈ D ∨ x ∈ S → x.key = k)
    (hfront : ∀ x ∈ D, x.flEnd < c.request.flStart) (hback : ∀ x ∈ S, c.request.flEnd < x.flStart)
    (hle : c.request.flStart ≤ c.request.flEnd)
    (hQ : Q = [] ∧ c.request.flType = .unlck ∨ ∃ q, Q = [q] ∧ q.flStart = c.request.flStart ∧
      q.flEnd = c.request.flEnd ∧ q.flType = c.request.flType ∧ q.key = k ∧ q.flType ≠ .unlck)
    (hT : ∀ b t, T b t ↔ c.In b ∧ t = c.request.flType ∧ t ≠ .unlck ∨
      ¬ c.In b ∧ (HeldIn D t b ∨ HeldIn S t b)) : Tight T k (D ++ (Q ++ S)) := by
  have hmem : ∀ x ∈ D ++ (Q ++ S), (x ∈ D ∨ x ∈ S) ∨ x ∈ Q := fun x hx => by
    simp only [List.mem_append] at hx
    tauto
  have hq : ∀ x ∈ Q, x.flStart = c.request.flStart ∧ x.flEnd = c.request.flEnd ∧ x.key = k := by
    intro x hx
    rcases hQ with ⟨rfl, -⟩ | ⟨q, rfl, hstart, hend, -, hk, -⟩
    · cases hx
    · obtain rfl := List.mem_singleton.1 hx
      exact ⟨hstart, hend, hk⟩
  refine ⟨?_, fun x hx => ?_, fun x hx => ?_, fun b t => ?_⟩
  · refine List.pairwise_append.2 ⟨hD, List.pairwise_append.2 ⟨?_, hS, fun x hx y hy => ?_⟩,
      fun x hx y hy => ?_⟩
    · rcases hQ with ⟨rfl, -⟩ | ⟨q, rfl, -⟩
      exacts [.nil, List.pairwise_singleton ..]
    · have := hq x hx
      have := hback y hy
      omega
    · have := hfront x hx
      rcases List.mem_append.1 hy with hy | hy
      · have := hq y hy
        omega
      · have := hback y hy
        omega
  · rcases hmem x hx with hx | hx
    · exact hrange x hx
    · have := hq x hx
      omega
  · rcases hmem x hx with hx | hx
    exacts [hkey x hx, (hq x hx).2.2]
  · rw [hT, heldIn_append, heldIn_append]
    have hin : ∀ l, (l = D ∨ l = S) → HeldIn l t b → ¬ c.In b := by
      rintro l hl ⟨x, hx, -, hcov⟩ ⟨hlo, hhi⟩
      rcases hl with rfl | rfl
      · have := hfront x hx
        omega
      · have := hback x hx
        omega
    constructor
    · rintro (⟨hb, rfl, hne⟩ | ⟨-, hh | hh⟩)
      · rcases hQ with ⟨-, hunlck⟩ | ⟨q, rfl, hstart, hend, htype, -⟩
        · exact absurd hunlck hne
        · exact .inr (.inl ⟨q, List.mem_cons_self, htype, hstart ▸ hb.1, hend ▸ hb.2⟩)
      · exact .inl hh
      · exact .inr (.inr hh)
    · rintro (hh | ⟨x, hx, rfl, hcov⟩ | hh)
      · exact .inr ⟨hin D (.inl rfl) hh, .inl hh⟩
      · rcases hQ with ⟨rfl, -⟩ | ⟨q, rfl, hstart, hend, htype, -, hne⟩
        · cases hx
        · obtain rfl := List.mem_singleton.1 hx
          exact .inl ⟨⟨hstart ▸ hcov.1, hend ▸ hcov.2⟩, htype, hne⟩
      · exact .inr ⟨hin S (.inr rfl) hh, .inr hh⟩

/-- The request itself, or the new lock. -/
def middle (c : Scan I) (own : Bool) (n : ℕ) : List FileLock :=
  (if own then [c.request] else []) ++ c.newFl n

theorem middle_cases (hadded : c.added = true → own = true ∨ c.request.flType = .unlck)
    (hown : own = true → c.added = true ∧ c.request.flType ≠ .unlck)
    (hbase : ¬ (¬ c.added = true ∧ c.request.flType = .unlck)) :
    c.middle own n = [] ∧ c.request.flType = .unlck ∨ ∃ q, c.middle own n = [q] ∧
      q.flStart = c.request.flStart ∧ q.flEnd = c.request.flEnd ∧ q.flType = c.request.flType ∧
      q.key = c.request.key ∧ q.flType ≠ .unlck := by
  unfold Scan.middle Scan.newFl
  cases hadd : c.added with
  | true =>
    cases own with
    | true => exact .inr ⟨c.request, rfl, rfl, rfl, rfl, rfl, (hown rfl).2⟩
    | false => exact .inl ⟨rfl, (hadded hadd).resolve_left nofun⟩
  | false =>
    cases own with
    | true => exact absurd (hadd.symm.trans (hown rfl).1) nofun
    | false => exact .inr ⟨_, rfl, rfl, rfl, rfl, rfl, fun hu => hbase ⟨by rw [hadd]; nofun, hu⟩⟩

/-- The lock to the left, cut off. -/
def trim (c : Scan I) (left : Option ℕ) (x : FileLock) : FileLock :=
  if left = some x.id then { x with flEnd := loff (c.request.flStart - 1) } else x

theorem cutLeft_fst (c : Scan I) (left : Option ℕ) (r : List FileLock × List (LockWaiter I)) :
    (c.cutLeft left r).1 = r.1.map (c.trim left) := by
  cases left with
  | none => exact (List.map_id _).symm
  | some id =>
    refine List.map_congr_left fun x _ => ?_
    simp only [trim, Option.some.injEq, eq_comm (a := id)]

theorem map_trim_eq_self {left : Option ℕ} (h : ∀ x ∈ l, left ≠ some x.id) :
    l.map (c.trim left) = l :=
  (List.map_congr_left fun x hx => if_neg (h x hx)).trans (List.map_id _)

theorem trim_key (c : Scan I) (left : Option ℕ) (x : FileLock) : (c.trim left x).key = x.key := by
  unfold trim
  split <;> rfl

/-- What the loop has left behind, cut off. -/
theorem Loop.map_trim {B : List FileLock} (h : c.Loop T own done rest) (hok : c.Ok (rest ++ B) n) :
    Sorted (done.map (c.trim c.left)) ∧
      (∀ x ∈ done.map (c.trim c.left), x.flStart ≤ x.flEnd ∧ x.flEnd < c.request.flStart) ∧
      ∀ b t, ¬ c.In b → (HeldIn (done.map (c.trim c.left)) t b ↔ HeldIn done t b) := by
  have hstart := hok.start
  have hrange := hok.range
  have hlast := hok.last
  have hpred : loff (c.request.flStart - 1) = c.request.flStart - 1 :=
    FileLock.loff_of_lt (by omega) (by omega)
  have htrim : ∀ x ∈ done, (c.trim c.left x).flType = x.flType ∧
      (c.trim c.left x).flStart = x.flStart ∧
      (c.trim c.left x = x ∧ x.flEnd < c.request.flStart ∨
        (c.trim c.left x).flEnd = c.request.flStart - 1 ∧ x.flStart < c.request.flStart ∧
          c.request.flStart ≤ x.flEnd ∧ x.flEnd ≤ c.request.flEnd) := fun x hx => by
    unfold trim
    split
    next hid => exact ⟨rfl, rfl, .inr ⟨hpred, h.left x hx hid⟩⟩
    next hid => exact ⟨rfl, rfl, .inl ⟨rfl, (h.before x hx).resolve_left hid⟩⟩
  refine ⟨?_, fun x' hx' => ?_, fun b t hb => ?_⟩
  · have hsorted := (List.pairwise_append.1 h.sorted).1
    refine List.pairwise_map.2 (hsorted.imp_of_mem fun {x y} hx hy hlt => ?_)
    obtain ⟨-, -, hx'⟩ := htrim x hx
    obtain ⟨-, hystart, -⟩ := htrim y hy
    rw [hystart]
    rcases hx' with ⟨heq, hlt'⟩ | ⟨heq, hmeet⟩
    · rwa [heq]
    · omega
  · obtain ⟨x, hx, rfl⟩ := List.mem_map.1 hx'
    have hle := h.range x (List.mem_append_left _ hx)
    obtain ⟨-, hxstart, hx'⟩ := htrim x hx
    rcases hx' with ⟨heq, hlt'⟩ | ⟨heq, hmeet⟩
    · rw [heq]
      omega
    · omega
  · simp only [HeldIn, List.mem_map, exists_exists_and_eq_and]
    refine exists_congr fun x => and_congr_right fun hx => ?_
    obtain ⟨htype, hxstart, hx'⟩ := htrim x hx
    rw [htype, hxstart]
    refine and_congr_right fun _ => and_congr_right fun hlo => ?_
    unfold In at hb
    rcases hx' with ⟨heq, hlt'⟩ | ⟨heq, hmeet⟩
    · rw [heq]
    · omega

theorem Loop.own_type {B : List FileLock} (h : c.Loop T own done rest) (hok : c.Ok (rest ++ B) n) :
    own = true → c.added = true ∧ c.request.flType ≠ .unlck := fun hown => by
  refine ⟨h.ofOwn hown, hok.type c.request (List.mem_append_left _ ?_)⟩
  rw [h.front, if_pos hown]
  exact List.mem_append_right _ List.mem_cons_self

/-- The addresses of the locks left behind are not those of the others. -/
theorem Loop.id_ne {B : List FileLock} (h : c.Loop T own done rest) (hok : c.Ok (rest ++ B) n) :
    ∀ x ∈ c.middle own n ++ (rest ++ B), ∀ y ∈ done, y.id ≠ x.id := by
  intro x hx y hy heq
  have hnodup := hok.nodup
  rw [h.front, List.append_assoc, List.map_append] at hnodup
  have hother : x ∈ (if own then [c.request] else []) ++ (rest ++ B) → False := fun hx =>
    (List.nodup_append'.1 hnodup).2.2 (List.mem_map_of_mem hy) (heq ▸ List.mem_map_of_mem hx)
  have hlt := hok.lt y (List.mem_append_left _ (by rw [h.front]; exact List.mem_append_left _ hy))
  unfold Scan.middle at hx
  rcases List.mem_append.1 hx with hx | hx
  · rcases List.mem_append.1 hx with hx | hx
    · exact hother (List.mem_append_left _ hx)
    · rw [(mem_newFl hx).1] at heq
      exact absurd heq (Nat.ne_of_lt hlt)
  · exact hother (List.mem_append_right _ hx)

/-- The cut to the left changes only what has been left behind. -/
theorem Loop.map_trim_append {B : List FileLock} (h : c.Loop T own done rest)
    (hok : c.Ok (rest ++ B) n) : (c.front ++ (c.newFl n ++ (rest ++ B))).map (c.trim c.left) =
      done.map (c.trim c.left) ++ (c.middle own n ++ (rest ++ B)) := by
  have hself : (c.middle own n ++ (rest ++ B)).map (c.trim c.left) =
      c.middle own n ++ (rest ++ B) := by
    refine map_trim_eq_self fun x hx hleft => ?_
    obtain ⟨y, hy, hid⟩ := h.leftDone x.id hleft
    exact h.id_ne hok x hx y hy hid
  have hlist : c.front ++ (c.newFl n ++ (rest ++ B)) = done ++ (c.middle own n ++ (rest ++ B)) := by
    rw [h.front, Scan.middle]
    simp only [List.append_assoc]
  rw [hlist, List.map_append, hself]

/-- Nothing sticks out to the right. -/
theorem Loop.finish {B : List FileLock} (h : c.Loop T own done rest) (hok : c.Ok (rest ++ B) n)
    (hbeyond : ∀ y ∈ rest, c.request.flEnd < y.flStart) :
    ∃ M, (c.finish none (rest ++ B) n).1 = M ++ B ∧ Tight T c.request.key M := by
  have hsorted := List.pairwise_append.1 h.sorted
  unfold Scan.finish
  split
  next hbase =>
    have hown : own = false := by
      by_contra hne
      exact hbase.1 (h.ofOwn (eq_true_of_ne_false hne))
    have hleft : c.left = none := by
      by_contra hne
      exact hbase.1 (h.unlck hbase.2 hne)
    have hfront := h.front
    simp only [hown, Bool.false_eq_true, if_false, List.append_nil] at hfront
    refine ⟨done ++ ([] ++ rest), by simp only [hfront, List.nil_append, List.append_assoc],
      tight hsorted.1 hsorted.2.1 (fun x hx => h.range x (List.mem_append.2 hx))
        (fun x hx => h.key x (List.mem_append.2 hx)) (fun x hx => ?_) hbeyond hok.range
        (.inl ⟨rfl, hbase.2⟩) fun b t => by rw [h.target, heldIn_append]⟩
    refine (h.before x hx).resolve_left ?_
    rw [hleft]
    nofun
  next hbase =>
    obtain ⟨hD, hfront, hheld⟩ := h.map_trim hok
    dsimp only
    rw [cutLeft_fst, h.map_trim_append hok]
    refine ⟨done.map (c.trim c.left) ++ (c.middle own n ++ rest), by simp only [List.append_assoc],
      tight hD hsorted.2.1 ?_ ?_ (fun x hx => (hfront x hx).2) hbeyond hok.range
        (middle_cases h.added (h.own_type hok) hbase) fun b t => ?_⟩
    · rintro x (hx | hx)
      exacts [(hfront x hx).1, h.range x (List.mem_append_right _ hx)]
    · rintro x (hx | hx)
      · obtain ⟨y, hy, rfl⟩ := List.mem_map.1 hx
        exact (trim_key ..).trans (h.key y (List.mem_append_left _ hy))
      · exact h.key x (List.mem_append_right _ hx)
    · rw [h.target, heldIn_append]
      refine or_congr Iff.rfl (and_congr_right fun hb => or_congr (hheld b t hb).symm Iff.rfl)

/-- A lock that sticks out to the right only does not change what is true of the loop. -/
theorem Loop.touch (h : c.Loop T own done (fl :: rest)) (hge : c.request.flStart ≤ fl.flStart) :
    (c.touch fl).Loop T own done (fl :: rest) := by
  have hleft : (c.touch fl).left = c.left := if_neg (not_lt.2 hge)
  refine ⟨h.front, fun hown => ?_, fun hadded => ?_, h.sorted, h.range, h.key, ?_, ?_, ?_,
    fun _ y hy => ?_, fun hunlck _ => ?_, h.noWrap, h.target⟩
  · simp only [Scan.touch, h.ofOwn hown, Bool.true_or]
  · rcases (Bool.or_eq_true_iff).1 hadded with ha | hu
    exacts [h.added ha, .inr (of_decide_eq_true hu)]
  · rw [hleft]
    exact h.before
  · rw [hleft]
    exact h.left
  · rw [hleft]
    exact h.leftDone
  · rcases List.mem_cons.1 hy with rfl | hy
    · exact hge
    · have := h.sorted_erase.2.2 y hy
      have := h.range fl (List.mem_append_right _ List.mem_cons_self)
      change c.request.flStart ≤ y.flStart
      omega
  · exact (Bool.or_eq_true_iff).2 (.inr (decide_eq_true hunlck))

/-- Its bytes in the range of the request do not matter. -/
theorem Loop.clip {z : FileLock} (h : c.Loop T own done (fl :: rest))
    (hge : c.request.flStart ≤ fl.flStart) (hright : fl.flStart ≤ c.request.flEnd)
    (hlt : c.request.flEnd < fl.flEnd) (htype : z.flType = fl.flType) (hkey : z.key = fl.key)
    (hstart : z.flStart = c.request.flEnd + 1) (hend : z.flEnd = fl.flEnd) :
    c.Loop T own done (z :: rest) := by
  have hsorted := List.pairwise_append.1 h.sorted
  obtain ⟨-, hdone, hrest⟩ := h.sorted_erase
  have hmem : ∀ x ∈ done ++ z :: rest, x ∈ done ++ fl :: rest ∨ x = z := fun x hx => by
    simp only [List.mem_append, List.mem_cons] at hx ⊢
    tauto
  refine ⟨h.front, h.ofOwn, h.added, ?_, fun x hx => ?_, fun x hx => ?_, h.before, h.left,
    h.leftDone, fun hor => ?_, h.unlck, fun hmax => ?_, fun b t => ?_⟩
  · refine List.pairwise_append.2 ⟨hsorted.1, List.pairwise_cons.2 ⟨fun y hy => ?_,
      (List.pairwise_cons.1 hsorted.2.1).2⟩, fun x hx y hy => ?_⟩
    · have := hrest y hy
      omega
    · rcases List.mem_cons.1 hy with rfl | hy
      · have := hdone x hx
        omega
      · exact hsorted.2.2 x hx y (List.mem_cons_of_mem _ hy)
  · rcases hmem x hx with hx | rfl
    · exact h.range x hx
    · omega
  · rcases hmem x hx with hx | rfl
    exacts [h.key x hx, hkey.trans (h.key fl (List.mem_append_right _ List.mem_cons_self))]
  · refine List.forall_mem_cons.2 ⟨?_, fun y hy => h.after hor y (List.mem_cons_of_mem _ hy)⟩
    omega
  · refine List.forall_mem_cons.2 ⟨fun hsame => ?_, fun y hy =>
      h.noWrap hmax y (List.mem_cons_of_mem _ hy)⟩
    have := h.noWrap hmax fl List.mem_cons_self (hsame.trans htype)
    omega
  · rw [h.target, heldIn_append, heldIn_append, heldIn_cons, heldIn_cons, htype, hstart, hend]
    unfold In
    refine or_congr Iff.rfl (and_congr_right fun hout => or_congr Iff.rfl (or_congr ?_ Iff.rfl))
    refine and_congr_right fun _ => ?_
    omega

theorem modify_cons_append {X Y : List FileLock} {f : FileLock → FileLock}
    (hX : ∀ x ∈ X, x.id ≠ fl.id) (hY : ∀ x ∈ Y, x.id ≠ fl.id) :
    modify (X ++ fl :: Y) fl.id f = X ++ f fl :: Y := by
  rw [modify_append, modify_eq_self hX]
  refine congrArg (X ++ ·) ?_
  change (if fl.id = fl.id then f fl else fl) :: modify Y fl.id f = _
  rw [if_pos rfl, modify_eq_self hY]

theorem Ok.clip {z : FileLock} (h : c.Ok (fl :: rest) n) (hid : z.id = fl.id)
    (hposix : z.flFlags = .posix) (htype : z.flType = fl.flType) (hstart : 0 ≤ z.flStart)
    (hend : z.flEnd = fl.flEnd) : c.Ok (z :: rest) n := by
  have hfl : fl ∈ c.front ++ fl :: rest := List.mem_append_right _ List.mem_cons_self
  have hids : (c.front ++ z :: rest).map FileLock.id = (c.front ++ fl :: rest).map FileLock.id := by
    simp only [List.map_append, List.map_cons, hid]
  have hmem : ∀ x ∈ c.front ++ z :: rest, x ∈ c.front ++ fl :: rest ∨ x = z := fun x hx => by
    simp only [List.mem_append, List.mem_cons] at hx ⊢
    tauto
  refine ⟨hids ▸ h.nodup, fun x hx => ?_, fun x hx => ?_, fun x hx => ?_, fun x hx => ?_,
    fun x hx hx' => ?_, ?_, h.alone, h.request, h.start, h.range, h.last, fun x hx hl => ?_⟩
  · rcases hmem x hx with hx | rfl
    exacts [h.lt x hx, hid ▸ h.lt fl hfl]
  · rcases hmem x hx with hx | rfl
    exacts [h.posix x hx, hposix]
  · rcases hmem x hx with hx | rfl
    exacts [h.bounds x hx, ⟨hstart, hend ▸ (h.bounds fl hfl).2⟩]
  · rcases hmem x hx with hx | rfl
    exacts [h.type x hx, htype ▸ h.type fl hfl]
  · rcases hmem x hx with hx | rfl
    exacts [h.same x hx hx', absurd (hid.symm.trans hx') (h.fresh fl List.mem_cons_self)]
  · exact List.forall_mem_cons.2 ⟨hid ▸ h.fresh fl List.mem_cons_self, fun x hx =>
      h.fresh x (List.mem_cons_of_mem _ hx)⟩
  · rcases hmem x hx with hx | rfl
    exacts [h.left x hx hl, hend ▸ h.left fl hfl (hid ▸ hl)]

/-- The addresses of the others, when the loop ends at a lock. -/
theorem Ok.ids {l : List FileLock} (hok : c.Ok (fl :: l) n) :
    (∀ x ∈ c.front, x.id ≠ fl.id) ∧ ∀ x ∈ l, x.id ≠ fl.id := by
  have hnodup := hok.nodup
  rw [List.map_append, List.map_cons] at hnodup
  have hn := List.nodup_append'.1 hnodup
  exact ⟨fun x hx heq => hn.2.2 (List.mem_map_of_mem hx) (heq ▸ List.mem_cons_self),
    fun x hx heq => (List.nodup_cons.1 hn.2.1).1 (heq ▸ List.mem_map_of_mem hx)⟩

/-- A lock is broken in two. -/
theorem Ok.split {l : List FileLock} {blocked : List (LockWaiter I)} (hok : c.Ok (fl :: l) n) :
    (c.cutLeft (some (n + 1)) (c.cutRight fl
      (c.front ++ ({ fl with id := n + 1 } :: c.newFl n ++ fl :: l), blocked))).1 =
      c.front ++ { fl with id := n + 1, flEnd := loff (c.request.flStart - 1) } ::
        (c.newFl n ++ { fl with flStart := loff (c.request.flEnd + 1) } :: l) := by
  have hlt : ∀ x ∈ c.front ++ fl :: l, x.id ≠ n + 1 := fun x hx => by
    have := hok.lt x hx
    omega
  have hfl : fl ∈ c.front ++ fl :: l := List.mem_append_right _ List.mem_cons_self
  have hnew : ∀ x ∈ c.newFl n, x.id = n := fun x hx => by rw [(mem_newFl hx).1]
  change modify (modify (c.front ++ ({ fl with id := n + 1 } :: c.newFl n ++ fl :: l)) fl.id _)
    (n + 1) _ = _
  rw [← List.append_assoc, modify_cons_append (fun x hx => ?_) hok.ids.2, List.append_assoc,
    List.cons_append]
  · refine @modify_cons_append { fl with id := n + 1 } _ _ _
      (fun x hx => hlt x (List.mem_append_left _ hx)) fun x hx => ?_
    rcases List.mem_append.1 hx with hx | hx
    · rw [hnew x hx]
      exact (Nat.succ_ne_self n).symm
    · rcases List.mem_cons.1 hx with rfl | hx
      · exact hlt fl hfl
      · exact hlt x (List.mem_append_right _ (List.mem_cons_of_mem _ hx))
  · rcases List.mem_append.1 hx with hx | hx
    · exact hok.ids.1 x hx
    · have hfln := hok.lt fl hfl
      rcases List.mem_cons.1 hx with rfl | hx
      · exact (hlt fl hfl).symm
      · rw [hnew x hx]
        exact (Nat.ne_of_lt hfln).symm

/-- A lock sticks out on both sides. -/
theorem Loop.finish_split {B : List FileLock} (h : c.Loop T own done (fl :: rest))
    (hok : (c.touch fl).Ok (fl :: (rest ++ B)) n) (hlo : fl.flStart < c.request.flStart)
    (hhi : c.request.flEnd < fl.flEnd) :
    ∃ M, ((c.touch fl).cutLeft (some (n + 1)) ((c.touch fl).cutRight fl
        (c.front ++ ({ fl with id := n + 1 } :: (c.touch fl).newFl n ++ fl :: (rest ++ B)),
          c.blocked))).1 = M ++ B ∧ Tight T c.request.key M := by
  have hstart : 0 ≤ c.request.flStart := hok.start
  have hrange : c.request.flStart ≤ c.request.flEnd := hok.range
  have hfl : fl ∈ c.front ++ fl :: (rest ++ B) := List.mem_append_right _ List.mem_cons_self
  have hbounds := hok.bounds fl hfl
  have hsucc : loff (c.request.flEnd + 1) = c.request.flEnd + 1 :=
    FileLock.loff_of_lt (by omega) (by omega)
  have hpred : loff (c.request.flStart - 1) = c.request.flStart - 1 :=
    FileLock.loff_of_lt (by omega) (by omega)
  have hfirst : ¬ (c.added = true ∨ c.left ≠ none) := fun hor => by
    have := h.request_le hor
    omega
  have hadded : c.added = false := eq_false_of_ne_true fun h => hfirst (.inl h)
  have hown : own = false := by
    by_contra hne
    exact hfirst (.inl (h.ofOwn (eq_true_of_ne_false hne)))
  have hfront := h.front
  simp only [hown, Bool.false_eq_true, if_false, List.append_nil] at hfront
  -- the two pieces of the lock
  set piece : FileLock := { fl with id := n + 1, flEnd := loff (c.request.flStart - 1) } with hpiece
  set z : FileLock := { fl with flStart := loff (c.request.flEnd + 1) } with hz
  obtain ⟨hsorted, hdone, hrest⟩ := h.sorted_erase
  have hpair := List.pairwise_append.1 h.sorted
  have hbefore : ∀ x ∈ done, x.flEnd < c.request.flStart := fun x hx =>
    (h.before x hx).resolve_left fun hl => hfirst (.inr (by rw [hl]; nofun))
  have hlist : done ++ [piece] ++ ((c.touch fl).newFl n ++ z :: rest) ++ B =
      done ++ piece :: ((c.touch fl).newFl n ++ z :: (rest ++ B)) := by
    simp only [List.append_assoc, List.cons_append, List.nil_append]
  refine ⟨done ++ [piece] ++ ((c.touch fl).newFl n ++ z :: rest),
    hok.split.trans (by rw [hlist]; exact congrArg (· ++ _) hfront),
    tight (c := c.touch fl) ?_ ?_ ?_ ?_ ?_ ?_ hrange ?_ ?_⟩
  · refine List.pairwise_append.2 ⟨hpair.1, List.pairwise_singleton .., fun x hx y hy => ?_⟩
    obtain rfl := List.mem_singleton.1 hy
    exact hdone x hx
  · refine List.pairwise_cons.2 ⟨fun y hy => hrest y hy, (List.pairwise_cons.1 hpair.2.1).2⟩
  · rintro x (hx | hx)
    · rcases List.mem_append.1 hx with hx | hx
      · exact h.range x (List.mem_append_left _ hx)
      · obtain rfl := List.mem_singleton.1 hx
        simp only [hpiece, hpred]
        omega
    · rcases List.mem_cons.1 hx with rfl | hx
      · simp only [hz, hsucc]
        omega
      · exact h.range x (List.mem_append_right _ (List.mem_cons_of_mem _ hx))
  · have hkey : fl.key = c.request.key := h.key fl (List.mem_append_right _ List.mem_cons_self)
    rintro x (hx | hx)
    · rcases List.mem_append.1 hx with hx | hx
      · exact h.key x (List.mem_append_left _ hx)
      · obtain rfl := List.mem_singleton.1 hx
        exact hkey
    · rcases List.mem_cons.1 hx with rfl | hx
      · exact hkey
      · exact h.key x (List.mem_append_right _ (List.mem_cons_of_mem _ hx))
  · intro x hx
    rcases List.mem_append.1 hx with hx | hx
    · exact hbefore x hx
    · obtain rfl := List.mem_singleton.1 hx
      change loff _ < c.request.flStart
      omega
  · intro x hx
    change c.request.flEnd < _
    rcases List.mem_cons.1 hx with rfl | hx
    · simp only [hz, hsucc]
      omega
    · have := hrest x hx
      omega
  · refine @middle_cases I n (c.touch fl) false (fun ha => .inr ?_) nofun ?_
    · simp only [Scan.touch, hadded, Bool.false_or] at ha
      exact of_decide_eq_true ha
    · rintro ⟨hno, hunlck⟩
      exact touch_unlck c fl (eq_false_of_ne_true hno) hunlck
  · intro b t
    rw [h.target, heldIn_append, heldIn_append, heldIn_cons, heldIn_cons, heldIn_cons, or_assoc]
    refine or_congr Iff.rfl (and_congr_right fun hout => or_congr Iff.rfl ?_)
    rw [or_iff_left heldIn_nil, ← or_assoc]
    refine or_congr ?_ Iff.rfl
    simp only [hpiece, hz, hpred, hsucc]
    unfold In at hout
    rw [← and_or_left]
    refine and_congr_right fun _ => ?_
    omega

/-- A lock sticks out to the right. -/
theorem Loop.finish_sticks {B : List FileLock} (h : c.Loop T own done (fl :: rest))
    (hok : (c.touch fl).Ok (fl :: (rest ++ B)) n) (hright : fl.flStart ≤ c.request.flEnd)
    (hlt : c.request.flEnd < fl.flEnd) :
    ∃ M, ((c.touch fl).finish (some fl) (fl :: (rest ++ B)) n).1 = M ++ B ∧
      Tight T c.request.key M := by
  have hstart : 0 ≤ c.request.flStart := hok.start
  have hrange : c.request.flStart ≤ c.request.flEnd := hok.range
  have hfl : fl ∈ c.front ++ fl :: (rest ++ B) := List.mem_append_right _ List.mem_cons_self
  have hmax := (hok.bounds fl hfl).2
  have hsucc : loff (c.request.flEnd + 1) = c.request.flEnd + 1 :=
    FileLock.loff_of_lt (by omega) (by omega)
  have hbase : ¬ (¬ (c.touch fl).added = true ∧ (c.touch fl).request.flType = .unlck) := by
    rintro ⟨hadded, hunlck⟩
    exact touch_unlck c fl (eq_false_of_ne_true hadded) hunlck
  -- only the lock itself is cut off to the right
  have hids := hok.ids
  have hnew : ∀ x ∈ (c.touch fl).newFl n, x.id = n := fun x hx => by rw [(mem_newFl hx).1]
  have hfln := hok.lt fl hfl
  unfold Scan.finish
  rw [if_neg hbase]
  dsimp only
  split
  next hsplit =>
    have hlt' : fl.flStart < c.request.flStart := by
      by_contra hge
      obtain ⟨x, hx, hid⟩ := h.leftDone fl.id ((if_neg hge).symm.trans hsplit)
      exact hids.1 x (h.front ▸ List.mem_append_left _ hx) hid
    exact h.finish_split hok hlt' hlt
  next hother =>
    have hge : c.request.flStart ≤ fl.flStart := not_lt.1 fun hlt => hother (if_pos hlt)
    have hloop := (h.touch hge).clip hge hright hlt
      (z := { fl with flStart := loff (c.request.flEnd + 1) }) rfl rfl hsucc rfl
    have hok' := hok.clip (z := { fl with flStart := loff (c.request.flEnd + 1) }) rfl
      (hok.posix fl hfl) rfl (by simp only [hsucc]; omega) rfl
    obtain ⟨hsorted, hdone, hrest⟩ := h.sorted_erase
    obtain ⟨M, hM, htight⟩ := hloop.finish (B := B) hok' (List.forall_mem_cons.2 ⟨by
      simp only [hsucc]
      change c.request.flEnd < _
      omega, fun y hy => by
      have := hrest y hy
      change c.request.flEnd < _
      omega⟩)
    refine ⟨M, ?_, htight⟩
    rw [← hM, Scan.finish, if_neg hbase, cutLeft_fst, cutLeft_fst]
    refine congrArg (List.map _) ?_
    change modify (c.front ++ ((c.touch fl).newFl n ++ fl :: (rest ++ B))) fl.id _ = _
    rw [← List.append_assoc, modify_cons_append (fun x hx => ?_) hids.2, List.append_assoc]
    · rfl
    · rcases List.mem_append.1 hx with hx | hx
      · exact hids.1 x hx
      · rw [hnew x hx]
        omega

theorem Ended.finish {B : List FileLock} {right : Option FileLock}
    (h : Ended T c right own done rest) (hok : c.Ok (rest ++ B) n) :
    ∃ M, (c.finish right (rest ++ B) n).1 = M ++ B ∧ Tight T c.request.key M := by
  cases h with
  | beyond h hbeyond => exact h.finish hok hbeyond
  | sticks h hleft hright hlt => exact h.finish_sticks hok hright hlt

end Scan

/-! ### One file -/

/-- A POSIX lock of the owner. -/
def Own (k : ℕ × ℕ) (x : FileLock) : Prop := x.flFlags = .posix ∧ x.key = k

instance (k : ℕ × ℕ) : DecidablePred (Own k) := fun _ => inferInstanceAs (Decidable (_ ∧ _))

/-- The POSIX locks of the owner. -/
def ofOwner (l : List FileLock) (k : ℕ × ℕ) : List FileLock := l.filter fun x => Own k x

/-- What the owner has locked a byte for. -/
def typeAt (l : List FileLock) (k : ℕ × ℕ) (b : ℤ) : LockType :=
  ((ofOwner l k).find? fun x => x.flStart ≤ b ∧ b ≤ x.flEnd).elim .unlck FileLock.flType

/-- The locks of every owner stand together, in order and without a common byte. -/
structure Tidy (l : List FileLock) : Prop where
  together : ∀ k, Together (Own k) l
  sorted : ∀ k, Sorted (ofOwner l k)
  range : ∀ x ∈ l, x.flStart ≤ x.flEnd

theorem ofOwner_append : ofOwner (l ++ l') k = ofOwner l k ++ ofOwner l' k := List.filter_append ..

theorem mem_ofOwner : x ∈ ofOwner l k ↔ x ∈ l ∧ Own k x := by simp [ofOwner]

theorem skips_iff {request : FileLock} : skips request x = true ↔ ¬ Own request.key x := by
  rw [← Bool.not_eq_false, skips_eq_false, Own, eq_comm (a := request.key)]

theorem Sorted.eq_of_mem (h : Sorted l) (hx : x ∈ l) (hy : y ∈ l)
    (hxb : x.flStart ≤ b ∧ b ≤ x.flEnd) (hyb : y.flStart ≤ b ∧ b ≤ y.flEnd) : x = y := by
  have hapart : l.Pairwise fun x y => x.flEnd < y.flStart ∨ y.flEnd < x.flStart :=
    List.Pairwise.imp (fun {x y} => Or.inl) h
  have : Std.Symm fun x y : FileLock => x.flEnd < y.flStart ∨ y.flEnd < x.flStart :=
    ⟨fun _ _ => Or.symm⟩
  by_contra hne
  have := hapart.forall hx hy hne
  omega

/-- The type of a byte is that of each lock for it. -/
theorem Tidy.typeAt_iff (h : Tidy l) (htype : t ≠ .unlck) :
    typeAt l k b = t ↔ HeldIn (ofOwner l k) t b := by
  unfold typeAt
  cases hfind : (ofOwner l k).find? (fun x => decide (x.flStart ≤ b ∧ b ≤ x.flEnd)) with
  | none =>
    refine ⟨fun h => absurd h.symm htype, fun ⟨x, hx, _, hcov⟩ => ?_⟩
    exact absurd (decide_eq_true hcov) (List.find?_eq_none.1 hfind x hx)
  | some x =>
    have hx := List.mem_of_find?_eq_some hfind
    have hcov : x.flStart ≤ b ∧ b ≤ x.flEnd := by simpa using List.find?_some hfind
    refine ⟨fun h => ⟨x, hx, h, hcov⟩, fun ⟨y, hy, hyt, hcov'⟩ => ?_⟩
    rw [(h.sorted k).eq_of_mem hx hy hcov hcov']
    exact hyt

theorem LockType.eq_of_forall {t t' : LockType} (h : ∀ u, u ≠ .unlck → (t = u ↔ t' = u)) :
    t = t' := by
  have := h .rdlck nofun
  have := h .wrlck nofun
  cases t <;> cases t' <;> simp_all

theorem typeAt_congr {l' : List FileLock} (h : ofOwner l k = ofOwner l' k) :
    typeAt l k b = typeAt l' k b := by
  rw [typeAt, typeAt, h]

theorem typeAt_of_ofOwner (h : ofOwner l k = []) : typeAt l k b = .unlck := by
  rw [typeAt, h]
  rfl

/-- A granted request: other locks take the place of those of the owner. -/
theorem Tidy.exists_tight {request : FileLock} (ht : Tidy l) (h : Valid l)
    (blocked : List (LockWaiter I)) (hr : Valid.Request request)
    (hid : ∀ x ∈ l, x.id ≠ request.id) (hlt : ∀ x ∈ l, x.id < n)
    (hwrap : request.flEnd = offsetMax → ∀ x ∈ l, Own request.key x →
      request.flType = x.flType → x.flEnd < request.flStart - 1) :
    ∃ A M M' B, l = A ++ (M ++ B) ∧ (posixApply l blocked request n).1 = A ++ (M' ++ B) ∧
      Parts (Own request.key) A M B ∧ (∀ x ∈ M', Own request.key x) ∧
      Scan.Tight (fun b t => (request.flStart ≤ b ∧ b ≤ request.flEnd) ∧ t = request.flType ∧
        t ≠ .unlck ∨ ¬ (request.flStart ≤ b ∧ b ≤ request.flEnd) ∧ HeldIn M t b)
        request.key M' := by
  obtain ⟨A, M, B, hl, hparts⟩ := ht.together request.key
  have hM : ofOwner l request.key = M := by
    rw [hl]
    exact filter_append_append (fun x => decide_eq_true_iff) hparts.front hparts.mid hparts.back
  have hmem : ∀ x ∈ M, x ∈ l := fun x hx => hl ▸ by simp [hx]
  have hok := h.ok blocked hr hid hlt
  have hsorted := ht.sorted request.key
  rw [hM] at hsorted
  have hloop : ({ front := [], blocked := blocked, request := request, added := false
                  left := none } : Scan I).Loop (fun b t =>
      (request.flStart ≤ b ∧ b ≤ request.flEnd) ∧ t = request.flType ∧ t ≠ .unlck ∨
        ¬ (request.flStart ≤ b ∧ b ≤ request.flEnd) ∧ HeldIn M t b) false [] M :=
    { front := rfl
      ofOwn := nofun
      added := nofun
      sorted := hsorted
      range := fun x hx => ht.range x (hmem x hx)
      key := fun x hx => (hparts.mid x hx).2
      before := nofun
      left := nofun
      leftDone := nofun
      after := fun hor => absurd rfl (hor.resolve_left nofun)
      unlck := fun _ hne => absurd rfl hne
      noWrap := fun hmax y hy => hwrap hmax y (hmem y hy) (hparts.mid y hy)
      target := fun _ _ => Iff.rfl }
  have hdrop : l.dropWhile (skips request) = M ++ B := by
    rw [hl]
    exact hparts.dropWhile fun x => skips_iff
  have htake : l.takeWhile (skips request) = A := by
    rw [hl]
    exact hparts.takeWhile fun x => skips_iff
  rw [hdrop] at hok
  have hB : ∀ y ∈ B.head?, y.key ≠ request.key := fun y hy hkey =>
    hparts.back y (List.mem_of_mem_head? hy)
      ⟨hok.posix y (List.mem_append_right _ (List.mem_append_right _ (List.mem_of_mem_head? hy))),
        hkey⟩
  obtain ⟨own, done, rest, hrest, hended⟩ := hloop.scan hok hB
  obtain ⟨hfollows, hsticks⟩ := hok.scan
  have hfinish := hfollows.ok.finish _ hsticks
  have hok' := hfollows.ok
  have hkey := hfollows.key
  rw [hrest] at hfinish hok'
  obtain ⟨M', hM', htight⟩ := hended.finish hok'
  rw [hkey] at htight
  refine ⟨A, M, M', B, hl, ?_, hparts, fun x hx =>
    ⟨hfinish.posix x (hM' ▸ List.mem_append_left _ hx), htight.key x hx⟩, htight⟩
  unfold FileLocks.posixApply
  rw [hdrop, htake, ← hM', ← hrest]

/-- **A granted request.**  Its range gets its type. -/
theorem Tidy.posixApply {request : FileLock} (ht : Tidy l) (h : Valid l)
    (blocked : List (LockWaiter I)) (hr : Valid.Request request)
    (hid : ∀ x ∈ l, x.id ≠ request.id) (hlt : ∀ x ∈ l, x.id < n)
    (hwrap : request.flEnd = offsetMax → ∀ x ∈ l, Own request.key x →
      request.flType = x.flType → x.flEnd < request.flStart - 1) :
    Tidy (posixApply l blocked request n).1 ∧ ∀ k b, typeAt (posixApply l blocked request n).1 k b =
      if k = request.key ∧ request.flStart ≤ b ∧ b ≤ request.flEnd then request.flType
      else typeAt l k b := by
  obtain ⟨A, M, M', B, hl, happly, hparts, hnew, htight⟩ :=
    ht.exists_tight h blocked hr hid hlt hwrap
  rw [happly]
  have hM : ofOwner l request.key = M := by
    rw [hl]
    exact filter_append_append (fun x => decide_eq_true_iff) hparts.front hparts.mid hparts.back
  have hself : ofOwner (A ++ (M' ++ B)) request.key = M' :=
    filter_append_append (fun x => decide_eq_true_iff) hparts.front hnew hparts.back
  have hother : ∀ k, k ≠ request.key → ofOwner (A ++ (M' ++ B)) k = ofOwner l k := by
    intro k hk
    have hno : ∀ N : List FileLock, (∀ x ∈ N, Own request.key x) → ofOwner N k = [] := fun N hN =>
      List.filter_eq_nil_iff.2 fun x hx hx' => hk ((of_decide_eq_true hx').2.symm.trans (hN x hx).2)
    simp only [hl, ofOwner_append, hno M' hnew, hno M hparts.mid]
  have htidy : Tidy (A ++ (M' ++ B)) := by
    refine ⟨fun k => ?_, fun k => ?_, fun x hx => ?_⟩
    · by_cases hk : k = request.key
      · rw [hk]
        exact together_of_append hparts.front hnew hparts.back
      · exact hparts.replace (fun x hx hx' => hk (hx'.2.symm.trans hx.2)) hnew (hl ▸ ht.together k)
    · by_cases hk : k = request.key
      · rw [hk, hself]
        exact htight.sorted
      · rw [hother k hk]
        exact ht.sorted k
    · simp only [List.mem_append] at hx
      rcases hx with hx | hx | hx
      exacts [ht.range x (by simp [hl, hx]), htight.range x hx, ht.range x (by simp [hl, hx])]
  refine ⟨htidy, fun k b => ?_⟩
  by_cases hk : k = request.key
  · subst hk
    refine LockType.eq_of_forall fun u hu => ?_
    rw [htidy.typeAt_iff hu, hself, ← htight.held]
    split_ifs with hb
    · simp only [hb.2, true_and, not_true_eq_false, false_and, or_false, hu, ne_eq,
        not_false_eq_true, and_true, and_self]
      exact eq_comm
    · rw [ht.typeAt_iff hu, hM]
      have hb' : ¬ (request.flStart ≤ b ∧ b ≤ request.flEnd) := fun h => hb ⟨rfl, h⟩
      simp only [hb', false_and, not_false_eq_true, true_and, false_or]
  · rw [typeAt_congr (hother k hk), if_neg fun h => hk h.1]

/-- Some locks go. -/
theorem Tidy.filter (h : Tidy l) (f : FileLock → Bool) : Tidy (l.filter f) where
  together k := (h.together k).filter f
  sorted k := by
    rw [ofOwner, List.filter_filter, List.filter_congr fun x _ => Bool.and_comm ..,
      ← List.filter_filter]
    exact (h.sorted k).sublist List.filter_sublist
  range x hx := h.range x (List.mem_of_mem_filter hx)

theorem ofOwner_filter {f : FileLock → Bool} (h : ∀ x ∈ l, Own k x → f x = true) :
    ofOwner (l.filter f) k = ofOwner l k := by
  rw [ofOwner, List.filter_filter]
  refine List.filter_congr fun x hx => ?_
  by_cases hk : Own k x
  · simp [hk, h x hx hk]
  · simp [hk]

/-- A lock of `flock` in front. -/
theorem Tidy.cons (h : Tidy l) (hflock : x.flFlags = .flock) (hle : x.flStart ≤ x.flEnd) :
    Tidy (x :: l) ∧ ∀ k, ofOwner (x :: l) k = ofOwner l k := by
  have hno : ∀ k, ¬ Own k x := fun k hk => absurd (hflock.symm.trans hk.1) nofun
  have hlist : ∀ k, ofOwner (x :: l) k = ofOwner l k := fun k =>
    List.filter_cons_of_neg (by simp [hno k])
  exact ⟨⟨fun k => (h.together k).cons (hno k), fun k => hlist k ▸ h.sorted k,
    List.forall_mem_cons.2 ⟨hle, h.range⟩⟩, hlist⟩

/-! ### All files -/

variable [DecidableEq I] {s s' : FileLocks I} {i : I} {a : LockAct I} {e : ℤ}

/-- What every owner has locked each byte of each file for. -/
def lockMap (s : FileLocks I) : I → ℕ × ℕ → ℤ → LockType := fun i => typeAt (s.iFlock i)

/-- What a call that returns `e` is for. -/
def mapAct (m : I → ℕ × ℕ → ℤ → LockType) (a : LockAct I) (e : ℤ) : I → ℕ × ℕ → ℤ → LockType :=
  match a with
  | .setlk64 i owner pid _ fPos iSize q _ _ =>
    match flock64ToPosixLock fPos iSize q with
    | .ok (start, last) => fun j k b =>
      if e = 0 ∧ j = i ∧ k = (owner, pid) ∧ start ≤ b ∧ b ≤ last then q.lType else m j k b
    | .error _ => m
  | .removePosix i owner => fun j k b => if j = i ∧ k.1 = owner then .unlck else m j k b
  | _ => m

/-- A request up to the last byte does not meet a lock of its owner with its type. -/
def NoWrap (s : FileLocks I) : LockAct I → Prop
  | .setlk64 i owner pid _ fPos iSize q _ _ => ∀ start,
    flock64ToPosixLock fPos iSize q = .ok (start, offsetMax) →
      ∀ x ∈ s.iFlock i, Own (owner, pid) x → q.lType = x.flType → x.flEnd < start - 1
  | _ => True

/-- What is true in every state. -/
structure Neat (s : FileLocks I) : Prop where
  inv : s.Inv
  tidy : ∀ i, Tidy (s.iFlock i)

theorem neat_init : (machine I).init.Neat where
  inv := inv_init
  tidy _ := ⟨fun _ => together_of_forall_not nofun, fun _ => .nil, nofun⟩

/-- The list of one file changes. -/
theorem Neat.setLocks {r : List FileLock × List (LockWaiter I)} (h : s.Neat) (hl : Tidy r.1)
    (m : ℕ) (i j : I) : Tidy (({ s with next := m }.setLocks i r).iFlock j) := by
  change Tidy (Function.update s.iFlock i r.1 j)
  rcases eq_or_ne j i with rfl | hne
  · rwa [Function.update_self]
  · rw [Function.update_of_ne hne]
    exact h.tidy j

theorem lockMap_setLocks (s : FileLocks I) (r : List FileLock × List (LockWaiter I)) (m : ℕ)
    (i j : I) (k : ℕ × ℕ) (b : ℤ) : ({ s with next := m }.setLocks i r).lockMap j k b =
      if j = i then typeAt r.1 k b else s.lockMap j k b := by
  change typeAt (Function.update s.iFlock i r.1 j) k b = _
  split_ifs with hj
  · rw [hj, Function.update_self]
  · rw [Function.update_of_ne hj]
    rfl

theorem Neat.setlk64 {owner pid file : ℕ} {fPos iSize : BitVec 64} {q : Flock64}
    {sleep mem : Bool} (h : s.Neat)
    (hN : NoWrap s (.setlk64 i owner pid file fPos iSize q sleep mem))
    (hact : s.fcntlSetlk64 i owner pid file fPos iSize q sleep mem = some (s', e)) :
    (∀ j, Tidy (s'.iFlock j)) ∧
      s'.lockMap = mapAct s.lockMap (.setlk64 i owner pid file fPos iSize q sleep mem) e := by
  unfold fcntlSetlk64 at hact
  unfold mapAct
  split at hact
  next e' hrange =>
    cases hact
    simp only [hrange]
    exact ⟨h.tidy, trivial⟩
  next start last hrange =>
    obtain ⟨hstart, hle, hlast⟩ := flock64ToPosixLock_ok hrange
    simp only [hrange]
    have hreq := FileLocks.requested hact
    cases hreq with
    | same e he =>
      refine ⟨h.tidy, ?_⟩
      funext j k b
      rw [if_neg fun hand => absurd (he hand.1) nofun]
      rfl
    | waits fl hfl hconf hsleep hdead =>
      refine ⟨h.tidy, ?_⟩
      funext j k b
      rw [if_neg fun hand => absurd hand.1 (by decide)]
      rfl
    | granted haccess hclear =>
      have hr : Valid.Request ⟨s.next, .posix, owner, pid, file, q.lType, start, last⟩ :=
        ⟨rfl, hstart, hle, hlast⟩
      have hwrap : last = offsetMax → ∀ x ∈ s.iFlock i, Own (owner, pid) x → q.lType = x.flType →
          x.flEnd < start - 1 := fun hmax => hN start (hmax ▸ hrange)
      obtain ⟨htidy, htype⟩ := (h.tidy i).posixApply (n := s.next + 1) (h.inv.valid i)
        s.blockedList hr (fun x hx => Nat.ne_of_lt (h.inv.lt i x hx))
        (fun x hx => Nat.lt_succ_of_lt (h.inv.lt i x hx)) hwrap
      refine ⟨fun j => h.setLocks htidy (s.next + 1 + 2) i j, ?_⟩
      funext j k b
      refine (lockMap_setLocks s _ (s.next + 1 + 2) i j k b).trans ?_
      by_cases hj : j = i
      · subst hj
        rw [if_pos rfl]
        refine (htype k b).trans (if_congr ?_ rfl rfl)
        simp only [true_and]
        rfl
      · rw [if_neg hj, if_neg fun hand => hj hand.2.1]

/-- Locks go that are not POSIX locks. -/
theorem Neat.deleteLocks {f : FileLock → Bool} (h : s.Neat)
    (hf : ∀ x ∈ s.iFlock i, x.flFlags = .posix → f x = false) :
    (∀ j, Tidy ((s.deleteLocks i f).iFlock j)) ∧ (s.deleteLocks i f).lockMap = s.lockMap := by
  refine ⟨fun j => h.setLocks ((h.tidy i).filter _) s.next i j, ?_⟩
  funext j k b
  refine (lockMap_setLocks s _ s.next i j k b).trans ?_
  split_ifs with hj
  · rw [hj]
    exact typeAt_congr (ofOwner_filter fun x hx hk => by simp [hf x hx hk.1])
  · rfl

/-- **Every step.**  A call changes the types of the bytes that it is for, and no others. -/
theorem Neat.act (h : s.Neat) (hN : NoWrap s a) (hact : s.act a = some (s', e)) :
    s'.Neat ∧ s'.lockMap = mapAct s.lockMap a e := by
  suffices htidy : (∀ j, Tidy (s'.iFlock j)) ∧ s'.lockMap = mapAct s.lockMap a e from
    ⟨⟨(h.inv.act hact).1, htidy.1⟩, htidy.2⟩
  cases a with
  | setlk64 i owner pid file fPos iSize q sleep mem => exact h.setlk64 hN hact
  | mandatoryArea i owner pid file write offset count sleep =>
    have hreq := FileLocks.requested hact
    cases hreq with
    | same e he => exact ⟨h.tidy, rfl⟩
    | waits fl hfl hconf hsleep hdead => exact ⟨h.tidy, rfl⟩
    | granted haccess hclear => cases haccess
  | flockDrop i file type =>
    cases hact
    unfold FileLocks.flockDrop
    split
    · exact ⟨h.tidy, rfl⟩
    next fl hfind =>
      split
      · exact ⟨h.tidy, rfl⟩
      · have hmem := List.mem_of_find?_eq_some hfind
        have hfl : fl ∈ s.iFlock i := (List.takeWhile_sublist _).subset hmem
        have hflock : fl.flFlags = .flock := by simpa using List.mem_takeWhile_imp hmem
        refine h.deleteLocks fun x hx hposix => decide_eq_false fun hid => ?_
        rw [List.inj_on_of_nodup_map (h.inv.valid i).nodup hx hfl hid, hflock] at hposix
        cases hposix
  | flockTake i owner pid file type sleep =>
    have heq : (s.flockTake i owner pid file type sleep).1 = s' :=
      congrArg Prod.fst (Option.some.inj hact)
    rw [← heq]
    unfold FileLocks.flockTake
    split
    · exact ⟨h.tidy, rfl⟩
    · dsimp only
      split
      · cases sleep <;> exact ⟨h.tidy, rfl⟩
      · obtain ⟨htidy, hown⟩ := (h.tidy i).cons
          (x := ⟨s.next, .flock, owner, pid, file, type, 0, offsetMax⟩) rfl
          (show (0 : ℤ) ≤ offsetMax by decide)
        refine ⟨fun j => h.setLocks htidy (s.next + 1) i j, ?_⟩
        funext j k b
        refine (lockMap_setLocks s _ (s.next + 1) i j k b).trans ?_
        split_ifs with hj
        · rw [hj]
          exact typeAt_congr (hown k)
        · rfl
  | removePosix i owner =>
    cases hact
    refine ⟨fun j => h.setLocks ((h.tidy i).filter _) s.next i j, ?_⟩
    funext j k b
    refine (lockMap_setLocks s _ s.next i j k b).trans ?_
    change _ = if j = i ∧ k.1 = owner then _ else _
    by_cases hj : j = i
    · subst hj
      by_cases hk : k.1 = owner
      · rw [if_pos rfl, if_pos ⟨rfl, hk⟩]
        refine typeAt_of_ofOwner (List.filter_eq_nil_iff.2 fun x hx hx' => ?_)
        have hown : Own k x := of_decide_eq_true hx'
        have hgo := (List.mem_filter.1 hx).2
        simp only [hown.1, ← hk, ← hown.2, FileLock.key, and_self, decide_true, Bool.not_true]
          at hgo
        cases hgo
      · rw [if_pos rfl, if_neg fun h => hk h.2]
        refine typeAt_congr (ofOwner_filter fun x _ hx => ?_)
        simp only [Bool.not_eq_true', decide_eq_false_iff_not]
        rintro ⟨-, rfl⟩
        exact hk (congrArg Prod.fst hx.2).symm
    · rw [if_neg hj, if_neg fun h => hj h.1]
  | removeFlock i file =>
    obtain ⟨s₁, hs₁, heq⟩ := Option.map_eq_some_iff.1 hact
    cases heq
    unfold locksRemoveFlock at hs₁
    split at hs₁
    · cases hs₁
    next hno =>
      cases hs₁
      exact h.deleteLocks fun x hx hposix => decide_eq_false fun hfile => hno ⟨x, hx, hfile, hposix⟩
  | deleteBlock id =>
    cases hact
    exact ⟨h.tidy, rfl⟩

/-- **The lists of locks are a map from bytes to types.**  As long as no request up to the last
byte meets a lock of its owner with its type, a POSIX request that returns 0 gives its type to its
range, for its owner; `locks_remove_posix` takes all bytes from an owner; no other call and no
failure changes a byte; and each lock is for the bytes between its ends, so that no two locks of an
owner are for the same one. -/
theorem lockMap_act {as : List (LockAct I)} (h : (machine I).Run NoWrap (machine I).init as s)
    (hN : NoWrap s a) (hact : s.act a = some (s', e)) :
    s'.lockMap = mapAct s.lockMap a e ∧
      ∀ i, ∀ x ∈ s'.iFlock i, x.flFlags = .posix → ∀ b, x.flStart ≤ b → b ≤ x.flEnd →
        s'.lockMap i x.key b = x.flType ∧
          ∀ y ∈ s'.iFlock i, Own x.key y → y.flStart ≤ b → b ≤ y.flEnd → y = x := by
  have hneat : s.Neat := h.invariant (fun s a s' hs hg hst => by
    obtain ⟨r, hr, rfl⟩ := Option.map_eq_some_iff.1 hst
    exact (hs.act (e := r.2) hg hr).1) neat_init
  obtain ⟨hneat', hmap⟩ := hneat.act hN hact
  refine ⟨hmap, fun i x hx hposix b hlo hhi => ?_⟩
  have hown : x ∈ ofOwner (s'.iFlock i) x.key := mem_ofOwner.2 ⟨hx, hposix, rfl⟩
  refine ⟨((hneat'.tidy i).typeAt_iff ((hneat'.inv.valid i).type x hx)).2
    ⟨x, hown, rfl, hlo, hhi⟩, fun y hy hyk hylo hyhi => ?_⟩
  exact ((hneat'.tidy i).sorted x.key).eq_of_mem (mem_ofOwner.2 ⟨hy, hyk⟩) hown ⟨hylo, hyhi⟩
    ⟨hlo, hhi⟩

/-- A reader gives up the middle of what it has. -/
theorem lockMap_act_middle :
    ∃ s s' : FileLocks Unit, (machine Unit).Run NoWrap (machine Unit).init
        [.setlk64 () 1 1 1 0 0 ⟨.rdlck, 0, 0, 10⟩ false true] s ∧
      s.act (.setlk64 () 1 1 1 0 0 ⟨.unlck, 0, 3, 3⟩ false true) = some (s', 0) ∧
      (s'.iFlock ()).length = 2 ∧
      s'.lockMap = mapAct s.lockMap (.setlk64 () 1 1 1 0 0 ⟨.unlck, 0, 3, 3⟩ false true) 0 ∧
      ∀ i, ∀ x ∈ s'.iFlock i, x.flFlags = .posix → ∀ b, x.flStart ≤ b → b ≤ x.flEnd →
        s'.lockMap i x.key b = x.flType ∧
          ∀ y ∈ s'.iFlock i, Own x.key y → y.flStart ≤ b → b ≤ y.flEnd → y = x := by
  have hlast : ∀ q : Flock64, ∀ r, flock64ToPosixLock 0 0 q = .ok r → r.2 ≠ offsetMax →
      ∀ s : FileLocks Unit, NoWrap s (.setlk64 () 1 1 1 0 0 q false true) :=
    fun q r hr hne s start heq => absurd (congrArg Prod.snd (Except.ok.inj (hr.symm.trans heq))) hne
  have hrun : (machine Unit).Run NoWrap (machine Unit).init
      [.setlk64 () 1 1 1 0 0 ⟨.rdlck, 0, 0, 10⟩ false true] _ :=
    .cons (hlast _ _ rfl (by decide) _) rfl (.nil _)
  refine ⟨_, _, hrun, rfl, rfl, ?_⟩
  exact lockMap_act hrun (hlast _ _ rfl (by decide) _) rfl

end FileLocks

end LxApi32
