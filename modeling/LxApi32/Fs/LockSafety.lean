import LxApi32.Fs.FileLocks
import Mathlib.Data.List.Nodup

/-!
# What file locks exclude

* `FileLocks.no_conflict` : locks that stand against each other are never set together.
* `FileLocks.waiter_blocked` : a request waits only as long as a lock stands against it.

Both hold for every order of the calls, and for all ranges.
-/

namespace LxApi32

namespace FileLock

variable {fl x y : FileLock} {k : ℕ × ℕ} {t : LockType} {b : ℤ}

/-- The owner. -/
def key (fl : FileLock) : ℕ × ℕ := (fl.flOwner, fl.flPid)

theorem posixSameOwner_iff : posixSameOwner x y ↔ x.key = y.key := by
  simp only [posixSameOwner, key, Prod.mk.injEq]

/-- The owner holds the byte with this type. -/
structure Holds (fl : FileLock) (k : ℕ × ℕ) (t : LockType) (b : ℤ) : Prop where
  posix : fl.flFlags = .posix
  key : fl.key = k
  type : fl.flType = t
  start : fl.flStart ≤ b
  last : b ≤ fl.flEnd

theorem loff_of_lt {z : ℤ} (h₀ : -1 ≤ z) (h : z ≤ offsetMax) : loff z = z := by
  unfold offsetMax at h
  exact Int.bmod_eq_of_le (by omega) (by omega)

/-- The overflow behind the last byte. -/
theorem loff_offsetMax : loff (offsetMax + 1) = -0x8000000000000000 := by decide

/-- It is the same lock, on at least these bytes. -/
structure Extends (x y : FileLock) : Prop where
  id : y.id = x.id
  flags : y.flFlags = x.flFlags
  key : y.key = x.key
  file : y.flFile = x.flFile
  type : y.flType = x.flType
  start : y.flStart ≤ x.flStart
  last : x.flEnd ≤ y.flEnd

theorem extends_refl (x : FileLock) : Extends x x := ⟨rfl, rfl, rfl, rfl, rfl, le_refl _, le_refl _⟩

theorem Extends.trans {z : FileLock} (h : Extends x y) (h' : Extends y z) : Extends x z :=
  ⟨h'.id.trans h.id, h'.flags.trans h.flags, h'.key.trans h.key, h'.file.trans h.file,
    h'.type.trans h.type, le_trans h'.start h.start, le_trans h.last h'.last⟩

/-- A lock on more bytes still stands against a request. -/
theorem Extends.posixLocksConflict (h : Extends x y) (hc : posixLocksConflict fl x) :
    posixLocksConflict fl y := by
  obtain ⟨hposix, howner, ⟨hstart, hlast⟩, hconf⟩ := hc
  have := h.start
  have := h.last
  refine ⟨h.flags.trans hposix, ?_, ⟨by omega, by omega⟩, ?_⟩
  · rwa [posixSameOwner_iff, h.key, ← posixSameOwner_iff]
  · unfold locksConflict
    rwa [h.type]

theorem Extends.flockLocksConflict (h : Extends x y) (hc : flockLocksConflict fl x) :
    flockLocksConflict fl y := by
  unfold FileLock.flockLocksConflict locksConflict at hc ⊢
  rwa [h.flags, h.file, h.type]

end FileLock

namespace FileLocks

open FileLock (offsetMax loff posixSameOwner posixLocksConflict flockLocksConflict setRange Holds
  Extends)

variable {I : Type*} {l l' : List FileLock} {blocked blocked' : List (LockWaiter I)}
  {f : FileLock → FileLock} {n m : ℕ} {x y fl : FileLock} {k : ℕ × ℕ} {t : LockType} {b : ℤ}

/-- What was looked for. -/
theorem prop_of_find {α : Type*} {p : α → Prop} [DecidablePred p] {l : List α} {a : α}
    (h : (l.find? fun x => p x) = some a) : p a := of_decide_eq_true (List.find?_some h :)

theorem mem_modify : x ∈ modify l n f ↔ ∃ y ∈ l, (if y.id = n then f y else y) = x := List.mem_map

theorem map_id_modify (hf : ∀ x, (f x).id = x.id) :
    (modify l n f).map FileLock.id = l.map FileLock.id := by
  rw [modify, List.map_map]
  refine List.map_congr_left fun x _ => ?_
  simp only [Function.comp_apply]
  split
  · exact hf x
  · rfl

/-- Who still waits still waits for a lock. -/
def Keeps (l : List FileLock) (blocked : List (LockWaiter I)) (l' : List FileLock)
    (blocked' : List (LockWaiter I)) : Prop :=
  ∀ w ∈ blocked', w ∈ blocked ∧ ∀ x ∈ l, x.id = w.flNext → ∃ y ∈ l', Extends x y

theorem keeps_refl (l : List FileLock) (blocked : List (LockWaiter I)) :
    Keeps l blocked l blocked := fun _ hw => ⟨hw, fun x hx _ => ⟨x, hx, FileLock.extends_refl x⟩⟩

theorem Keeps.trans {l'' : List FileLock} {blocked'' : List (LockWaiter I)}
    (h : Keeps l blocked l' blocked') (h' : Keeps l' blocked' l'' blocked'') :
    Keeps l blocked l'' blocked'' := by
  intro w hw
  obtain ⟨hw', hlock'⟩ := h' w hw
  obtain ⟨hw'', hlock⟩ := h w hw'
  refine ⟨hw'', fun x hx hid => ?_⟩
  obtain ⟨y, hy, hxy⟩ := hlock x hx hid
  obtain ⟨z, hz, hyz⟩ := hlock' y hy (hxy.id.trans hid)
  exact ⟨z, hz, hxy.trans hyz⟩

theorem mem_locksWakeUpBlocks {w : LockWaiter I} :
    w ∈ locksWakeUpBlocks blocked n ↔ w ∈ blocked ∧ w.flNext ≠ n := by
  simp [locksWakeUpBlocks]

/-- A lock changes, and who waits for it is woken. -/
theorem keeps_modify (l : List FileLock) (blocked : List (LockWaiter I)) (n : ℕ)
    (f : FileLock → FileLock) : Keeps l blocked (modify l n f) (locksWakeUpBlocks blocked n) := by
  intro w hw
  obtain ⟨hw, hne⟩ := mem_locksWakeUpBlocks.1 hw
  refine ⟨hw, fun x hx hid => ⟨x, mem_modify.2 ⟨x, hx, ?_⟩, FileLock.extends_refl x⟩⟩
  exact if_neg fun h => hne (hid.symm.trans h)

namespace Scan

variable {c : Scan I} {rest : List FileLock}

/-- What is true whenever the loop comes to its next lock. -/
structure Ok (c : Scan I) (rest : List FileLock) (n : ℕ) : Prop where
  nodup : ((c.front ++ rest).map FileLock.id).Nodup
  lt : ∀ x ∈ c.front ++ rest, x.id < n
  posix : ∀ x ∈ c.front ++ rest, x.flFlags = .posix
  bounds : ∀ x ∈ c.front ++ rest, 0 ≤ x.flStart ∧ x.flEnd ≤ offsetMax
  type : ∀ x ∈ c.front ++ rest, x.flType ≠ .unlck
  same : ∀ x ∈ c.front ++ rest, x.id = c.request.id → x = c.request
  fresh : ∀ x ∈ rest, x.id ≠ c.request.id
  alone : c.added = false → ∀ x ∈ c.front, x.id ≠ c.request.id
  request : c.request.flFlags = .posix
  start : 0 ≤ c.request.flStart
  range : c.request.flStart ≤ c.request.flEnd
  last : c.request.flEnd ≤ offsetMax
  left : ∀ x ∈ c.front ++ rest, c.left = some x.id → c.request.flStart ≤ x.flEnd

/-- What is held, and what will be. -/
def Pending (c : Scan I) (rest : List FileLock) (k : ℕ × ℕ) (t : LockType) (b : ℤ) : Prop :=
  (∃ x ∈ c.front ++ rest, x.Holds k t b) ∨ c.request.Holds k t b

/-- How the loop goes on at a lock of the owner. -/
inductive Visited (c : Scan I) (fl : FileLock) : Scan I × Option (Option FileLock) → Prop
  | before (hlt : fl.flEnd < c.request.flStart)
      (hsame : c.request.flType = fl.flType → fl.flEnd < c.request.flStart - 1) :
      Visited c fl (c.pass fl, none)
  | beyond (hsame : c.request.flType = fl.flType → c.request.flStart - 1 ≤ fl.flEnd ∧
        loff (c.request.flEnd + 1) < fl.flStart)
      (hother : c.request.flType ≠ fl.flType → c.request.flEnd < fl.flStart) :
      Visited c fl (c, some none)
  | merge (hsame : c.request.flType = fl.flType) (hleft : c.request.flStart - 1 ≤ fl.flEnd)
      (hright : fl.flStart ≤ c.request.flEnd + 1) : Visited c fl (c.merge fl, none)
  | right (hne : c.request.flType ≠ fl.flType) (hleft : c.request.flStart ≤ fl.flEnd)
      (hright : fl.flStart ≤ c.request.flEnd) (hlt : c.request.flEnd < fl.flEnd) :
      Visited c fl (c.touch fl, some (some fl))
  | replace (hne : c.request.flType ≠ fl.flType) (hleft : c.request.flStart ≤ fl.flStart)
      (hright : fl.flEnd ≤ c.request.flEnd) (hmeet : c.request.flStart ≤ fl.flEnd) :
      Visited c fl ((c.touch fl).replace fl, none)
  | left (hne : c.request.flType ≠ fl.flType) (hlt : fl.flStart < c.request.flStart)
      (hleft : c.request.flStart ≤ fl.flEnd) (hright : fl.flEnd ≤ c.request.flEnd) :
      Visited c fl ((c.touch fl).pass fl, none)

theorem visited (h : c.Ok (fl :: rest) n) : Visited c fl (c.visit fl) := by
  have hmax : offsetMax = 0x7fffffffffffffff := rfl
  have hstart := h.start
  have hrange := h.range
  have hlast := h.last
  have hfl := h.bounds fl (List.mem_append_right _ List.mem_cons_self)
  have hpred : loff (c.request.flStart - 1) = c.request.flStart - 1 :=
    FileLock.loff_of_lt (by omega) (by omega)
  have hsucc : loff (c.request.flEnd + 1) = c.request.flEnd + 1 ∨
      c.request.flEnd = offsetMax ∧ loff (c.request.flEnd + 1) = -0x8000000000000000 := by
    rcases lt_or_eq_of_le hlast with hlt | heq
    · exact .inl (FileLock.loff_of_lt (by omega) hlt)
    · exact .inr ⟨heq, heq ▸ FileLock.loff_offsetMax⟩
  unfold visit
  split
  next htype =>
    split
    next hlt => exact .before (by omega) fun _ => by omega
    next hge =>
      split
      next hlt =>
        exact .beyond (fun _ => ⟨by omega, hlt⟩) fun hne => absurd htype hne
      next hgt => exact .merge htype (by omega) (by omega)
  next htype =>
    split
    next hlt => exact .before hlt fun hsame => absurd hsame htype
    next hge =>
      split
      next hlt => exact .beyond (fun hsame => absurd hsame htype) fun _ => hlt
      next hmeet =>
        split
        next hlt => exact .right htype (by omega) (by omega) hlt
        next hle =>
          split
          next hcov => exact .replace htype hcov (by omega) (by omega)
          next hlt => exact .left htype (by omega) (by omega) (by omega)

/-! ### One lock -/

theorem Ok.pass (h : c.Ok (fl :: rest) n) : (c.pass fl).Ok rest n := by
  have hlist : (c.pass fl).front ++ rest = c.front ++ fl :: rest := List.append_assoc ..
  constructor
  case request => exact h.request
  case start => exact h.start
  case range => exact h.range
  case last => exact h.last
  case fresh => exact fun x hx => h.fresh x (List.mem_cons_of_mem _ hx)
  case alone =>
    intro hadded x hx
    rcases List.mem_append.1 hx with hx | hx
    · exact h.alone hadded x hx
    · exact h.fresh x (List.mem_singleton.1 hx ▸ List.mem_cons_self)
  all_goals rw [hlist]
  · exact h.nodup
  · exact h.lt
  · exact h.posix
  · exact h.bounds
  · exact h.type
  · exact h.same
  · exact h.left

/-- Without one of the locks. -/
theorem Ok.delete (h : c.Ok (fl :: rest) n) : (c.deleteLock fl).Ok rest n := by
  have hsub : ∀ x ∈ c.front ++ rest, x ∈ c.front ++ fl :: rest := fun x hx => by
    rw [List.mem_append] at hx ⊢
    exact hx.imp id (List.mem_cons_of_mem _)
  refine ⟨?_, fun x hx => h.lt x (hsub x hx), fun x hx => h.posix x (hsub x hx),
    fun x hx => h.bounds x (hsub x hx), fun x hx => h.type x (hsub x hx),
    fun x hx => h.same x (hsub x hx), fun x hx => h.fresh x (List.mem_cons_of_mem _ hx), h.alone,
    h.request, h.start, h.range, h.last, fun x hx => h.left x (hsub x hx)⟩
  exact h.nodup.sublist (((List.sublist_cons_self fl rest).append_left c.front).map _)

theorem Ok.touch (h : c.Ok (fl :: rest) n) (hmeet : c.request.flStart ≤ fl.flEnd) :
    (c.touch fl).Ok (fl :: rest) n := by
  refine { h with alone := fun hadded => h.alone ?_, left := fun x hx hleft => ?_ }
  · exact ((Bool.or_eq_false_iff).1 hadded).1
  · simp only [Scan.touch] at hleft ⊢
    split at hleft
    · have hid := Option.some.inj hleft
      obtain rfl := List.inj_on_of_nodup_map h.nodup
        (List.mem_append_right _ List.mem_cons_self) hx hid
      exact hmeet
    · exact h.left x hx hleft

theorem mem_grow {start last : ℤ} (h : c.Ok rest n)
    (hx : x ∈ (c.grow start last).front) : x ∈ c.front ∧ x.id ≠ c.request.id ∨
      x = (c.grow start last).request ∧ c.request ∈ c.front := by
  obtain ⟨y, hy, rfl⟩ := mem_modify.1 hx
  split
  next hid =>
    obtain rfl := h.same y (List.mem_append_left _ hy) hid
    exact .inr ⟨rfl, hy⟩
  next hid => exact .inl ⟨hy, hid⟩

theorem ids_grow (c : Scan I) (start last : ℤ) (rest : List FileLock) :
    ((c.grow start last).front ++ rest).map FileLock.id = (c.front ++ rest).map FileLock.id := by
  rw [List.map_append, List.map_append]
  exact congrArg (· ++ _) (map_id_modify fun _ => rfl)

theorem Ok.grow {start last : ℤ} (h : c.Ok rest n) (hstart : 0 ≤ start)
    (hle : start ≤ c.request.flStart) (hge : c.request.flEnd ≤ last) (hlast : last ≤ offsetMax) :
    (c.grow start last).Ok rest n := by
  have hrange := h.range
  have hmem : ∀ x ∈ (c.grow start last).front ++ rest,
      x ∈ c.front ++ rest ∧ x.id ≠ c.request.id ∨
        x = (c.grow start last).request ∧ c.request ∈ c.front ++ rest := fun x hx => by
    rcases List.mem_append.1 hx with hx | hx
    · exact (mem_grow h hx).imp (And.imp_left (List.mem_append_left _))
        (And.imp_right (List.mem_append_left _))
    · exact .inl ⟨List.mem_append_right _ hx, h.fresh x hx⟩
  refine ⟨?_, fun x hx => ?_, fun x hx => ?_, fun x hx => ?_, fun x hx => ?_, fun x hx hid => ?_,
    h.fresh, fun hadded x hx => ?_, h.request, hstart, by change start ≤ last; omega, hlast,
    fun x hx hleft => ?_⟩
  · rw [ids_grow]
    exact h.nodup
  · rcases hmem x hx with ⟨hx, -⟩ | ⟨rfl, hq⟩
    exacts [h.lt x hx, h.lt c.request hq]
  · rcases hmem x hx with ⟨hx, -⟩ | ⟨rfl, hq⟩
    exacts [h.posix x hx, h.posix c.request hq]
  · rcases hmem x hx with ⟨hx, -⟩ | ⟨rfl, -⟩
    exacts [h.bounds x hx, ⟨hstart, hlast⟩]
  · rcases hmem x hx with ⟨hx, -⟩ | ⟨rfl, hq⟩
    exacts [h.type x hx, h.type c.request hq]
  · rcases hmem x hx with ⟨-, hne⟩ | ⟨rfl, -⟩
    exacts [absurd hid hne, rfl]
  · rcases mem_grow h hx with ⟨-, hne⟩ | ⟨rfl, hq⟩
    exacts [hne, absurd rfl (h.alone hadded c.request hq)]
  · rcases hmem x hx with ⟨hx, -⟩ | ⟨rfl, -⟩
    · exact le_trans hle (h.left x hx hleft)
    · change start ≤ last
      omega

/-- The request becomes a lock at the place of another one. -/
theorem Ok.become {z : FileLock} (h : c.Ok (fl :: rest) n) (hid : z.id = fl.id)
    (hposix : z.flFlags = .posix) (htype : z.flType ≠ .unlck) (hstart : 0 ≤ z.flStart)
    (hrange : z.flStart ≤ z.flEnd) (hlast : z.flEnd ≤ offsetMax)
    (hle : z.flStart ≤ c.request.flStart) : (c.become z).Ok rest n := by
  have hlist : (c.become z).front ++ rest = c.front ++ z :: rest := List.append_assoc ..
  have hnodup : ((c.front ++ z :: rest).map FileLock.id).Nodup := by
    have := h.nodup
    rwa [List.map_append, List.map_cons, ← hid, ← List.map_cons, ← List.map_append] at this
  have hmem : ∀ x ∈ c.front ++ z :: rest, x ∈ c.front ++ fl :: rest ∨ x = z := fun x hx => by
    simp only [List.mem_append, List.mem_cons] at hx ⊢
    tauto
  have hz : z ∈ c.front ++ z :: rest := List.mem_append_right _ List.mem_cons_self
  constructor
  case request => exact hposix
  case start => exact hstart
  case range => exact hrange
  case last => exact hlast
  case alone => exact nofun
  case fresh =>
    intro x hx hxid
    have hx' : x ∈ c.front ++ z :: rest := List.mem_append_right _ (List.mem_cons_of_mem _ hx)
    obtain rfl := List.inj_on_of_nodup_map hnodup hx' hz hxid
    have := List.Nodup.of_append_right (List.map_append ▸ hnodup)
    exact (List.nodup_cons.1 this).1 (List.mem_map_of_mem hx)
  all_goals rw [hlist]
  · exact hnodup
  · intro x hx
    rcases hmem x hx with hx | rfl
    exacts [h.lt x hx, hid ▸ h.lt fl (List.mem_append_right _ List.mem_cons_self)]
  · intro x hx
    rcases hmem x hx with hx | rfl
    exacts [h.posix x hx, hposix]
  · intro x hx
    rcases hmem x hx with hx | rfl
    exacts [h.bounds x hx, ⟨hstart, hlast⟩]
  · intro x hx
    rcases hmem x hx with hx | rfl
    exacts [h.type x hx, htype]
  · intro x hx hxid
    exact List.inj_on_of_nodup_map hnodup hx hz hxid
  · intro x hx hleft
    rcases hmem x hx with hx | rfl
    exacts [le_trans hle (h.left x hx hleft), hrange]

/-- A merge of a request that is not a lock yet. -/
theorem Ok.merge_of_new (h : c.Ok (fl :: rest) n) (hadded : c.added = false) :
    c.merge fl = c.become (fl.setRange (min c.request.flStart fl.flStart)
      (max c.request.flEnd fl.flEnd)) := by
  have hfront : modify c.front c.request.id (setRange (min c.request.flStart fl.flStart)
      (max c.request.flEnd fl.flEnd)) = c.front := by
    refine (List.map_congr_left fun x hx => ?_).trans (List.map_id _)
    exact if_neg (h.alone hadded x hx)
  simp only [Scan.merge, Scan.grow, hadded, Bool.false_eq_true, if_false, hfront]
  rfl

theorem merge_of_added (hadded : c.added = true) :
    c.merge fl = (c.grow (min c.request.flStart fl.flStart)
      (max c.request.flEnd fl.flEnd)).deleteLock fl := by
  simp only [Scan.merge]
  exact if_pos hadded

theorem Ok.merge (h : c.Ok (fl :: rest) n) : (c.merge fl).Ok rest n := by
  have hfl : fl ∈ c.front ++ fl :: rest := List.mem_append_right _ List.mem_cons_self
  have hbounds := h.bounds fl hfl
  have hstart := h.start
  have hrange := h.range
  have hlast := h.last
  cases hadded : c.added with
  | true =>
    rw [merge_of_added hadded]
    exact (h.grow (by omega) (by omega) (by omega) (by omega)).delete
  | false =>
    rw [h.merge_of_new hadded]
    refine h.become rfl (h.posix fl hfl) (h.type fl hfl) ?_ ?_ ?_ ?_ <;>
      simp only [setRange] <;> omega

theorem Ok.replace (h : c.Ok (fl :: rest) n)
    (hunlck : c.added = false → c.request.flType ≠ .unlck) : (c.replace fl).Ok rest n := by
  unfold Scan.replace
  split
  next => exact h.delete
  next hadded =>
    have hfl : fl ∈ c.front ++ fl :: rest := List.mem_append_right _ List.mem_cons_self
    have hc : ({ c with blocked := locksWakeUpBlocks c.blocked fl.id } : Scan I).Ok (fl :: rest)
        n := { h with }
    exact hc.become rfl (h.posix fl hfl) (hunlck (eq_false_of_ne_true hadded)) h.start h.range
      h.last (le_refl _)

theorem touch_unlck (c : Scan I) (fl : FileLock) :
    (c.touch fl).added = false → (c.touch fl).request.flType ≠ .unlck := by
  intro hadded
  exact of_decide_eq_false ((Bool.or_eq_false_iff).1 hadded).2

theorem ids_delete (c : Scan I) (fl : FileLock) (rest : List FileLock) :
    List.Sublist (((c.deleteLock fl).front ++ rest).map FileLock.id)
      ((c.front ++ fl :: rest).map FileLock.id) :=
  ((List.sublist_cons_self fl rest).append_left c.front).map _

theorem ids_become (c : Scan I) {z : FileLock} (hid : z.id = fl.id) (rest : List FileLock) :
    ((c.become z).front ++ rest).map FileLock.id = (c.front ++ fl :: rest).map FileLock.id := by
  simp only [Scan.become, Scan.pass, List.append_assoc, List.map_append, List.map_cons,
    List.singleton_append, hid]

theorem Ok.ids_merge (h : c.Ok (fl :: rest) n) :
    List.Sublist (((c.merge fl).front ++ rest).map FileLock.id)
      ((c.front ++ fl :: rest).map FileLock.id) := by
  cases hadded : c.added with
  | true =>
    rw [merge_of_added hadded]
    exact (ids_delete _ fl rest).trans (ids_grow c _ _ (fl :: rest) ▸ List.Sublist.refl _)
  | false =>
    rw [h.merge_of_new hadded, @ids_become _ fl c _ (by rfl) rest]

theorem ids_replace (c : Scan I) (fl : FileLock) (rest : List FileLock) :
    List.Sublist (((c.replace fl).front ++ rest).map FileLock.id)
      ((c.front ++ fl :: rest).map FileLock.id) := by
  unfold Scan.replace
  split
  · exact ids_delete c fl rest
  · rw [@ids_become _ fl { c with blocked := _ } _ (by rfl) rest]

/-! ### What is held, and who waits -/

theorem Pending.imp {c' : Scan I} {rest' : List FileLock}
    (hlist : ∀ x ∈ c'.front ++ rest', x ∈ c.front ++ rest ∨
      ∀ k t b, x.Holds k t b → c.Pending rest k t b)
    (hrequest : ∀ k t b, c'.request.Holds k t b → c.Pending rest k t b)
    (h : c'.Pending rest' k t b) : c.Pending rest k t b := by
  rcases h with ⟨x, hx, hholds⟩ | hholds
  · rcases hlist x hx with hx | himp
    exacts [.inl ⟨x, hx, hholds⟩, himp k t b hholds]
  · exact hrequest k t b hholds

/-- One range out of two. -/
theorem pending_hull (h : c.Ok (fl :: rest) n) (hkey : c.request.key = fl.key)
    (hsame : c.request.flType = fl.flType) (hleft : c.request.flStart - 1 ≤ fl.flEnd)
    (hright : fl.flStart ≤ c.request.flEnd + 1) (hxkey : x.key = c.request.key)
    (hxtype : x.flType = c.request.flType) (hx : x.flStart = min c.request.flStart fl.flStart)
    (hx' : x.flEnd = max c.request.flEnd fl.flEnd) (hholds : x.Holds k t b) :
    c.Pending (fl :: rest) k t b := by
  have hfl : fl ∈ c.front ++ fl :: rest := List.mem_append_right _ List.mem_cons_self
  have hstart := hx ▸ hholds.start
  have hlast := hx' ▸ hholds.last
  by_cases hin : c.request.flStart ≤ b ∧ b ≤ c.request.flEnd
  · exact .inr ⟨h.request, hxkey ▸ hholds.key, hxtype ▸ hholds.type, hin.1, hin.2⟩
  · exact .inl ⟨fl, hfl, h.posix fl hfl, hkey ▸ hxkey ▸ hholds.key, hsame ▸ hxtype ▸ hholds.type,
      by omega, by omega⟩

theorem Ok.pending_merge (h : c.Ok (fl :: rest) n) (hkey : c.request.key = fl.key)
    (hsame : c.request.flType = fl.flType) (hleft : c.request.flStart - 1 ≤ fl.flEnd)
    (hright : fl.flStart ≤ c.request.flEnd + 1) (hp : (c.merge fl).Pending rest k t b) :
    c.Pending (fl :: rest) k t b := by
  have hhull : ∀ x : FileLock, x.key = c.request.key → x.flType = c.request.flType →
      x.flStart = min c.request.flStart fl.flStart → x.flEnd = max c.request.flEnd fl.flEnd →
      ∀ k t b, x.Holds k t b → c.Pending (fl :: rest) k t b :=
    fun x hxkey hxtype hx hx' _ _ _ => pending_hull h hkey hsame hleft hright hxkey hxtype hx hx'
  have hcons : ∀ x ∈ rest, x ∈ c.front ++ fl :: rest := fun x hx =>
    List.mem_append_right _ (List.mem_cons_of_mem _ hx)
  cases hadded : c.added with
  | true =>
    rw [merge_of_added hadded] at hp
    have hnew := hhull (c.grow (min c.request.flStart fl.flStart)
      (max c.request.flEnd fl.flEnd)).request rfl rfl rfl rfl
    refine hp.imp (fun x hx => ?_) hnew
    rcases List.mem_append.1 hx with hx | hx
    · rcases mem_grow h hx with ⟨hx, -⟩ | ⟨rfl, -⟩
      exacts [.inl (List.mem_append_left _ hx), .inr hnew]
    · exact .inl (hcons x hx)
  | false =>
    rw [h.merge_of_new hadded] at hp
    refine hp.imp (fun x hx => ?_) (hhull _ hkey.symm hsame.symm rfl rfl)
    rcases List.mem_append.1 hx with hx | hx
    · rcases List.mem_append.1 hx with hx | hx
      · exact .inl (List.mem_append_left _ hx)
      · obtain rfl := List.mem_singleton.1 hx
        exact .inr (hhull _ hkey.symm hsame.symm rfl rfl)
    · exact .inl (hcons x hx)

theorem Ok.pending_replace (h : c.Ok (fl :: rest) n) (hkey : c.request.key = fl.key)
    (hp : (c.replace fl).Pending rest k t b) : c.Pending (fl :: rest) k t b := by
  have hcons : ∀ x ∈ rest, x ∈ c.front ++ fl :: rest := fun x hx =>
    List.mem_append_right _ (List.mem_cons_of_mem _ hx)
  unfold Scan.replace at hp
  split at hp
  next =>
    refine hp.imp (fun x hx => .inl ?_) fun _ _ _ => .inr
    rcases List.mem_append.1 hx with hx | hx
    exacts [List.mem_append_left _ hx, hcons x hx]
  next =>
    have hnew : ∀ k t b, ({ fl.setRange c.request.flStart c.request.flEnd with
        flType := c.request.flType } : FileLock).Holds k t b → c.Pending (fl :: rest) k t b :=
      fun k t b hx => .inr ⟨h.request, hkey.trans hx.key, hx.type, hx.start, hx.last⟩
    refine hp.imp (fun x hx => ?_) hnew
    rcases List.mem_append.1 hx with hx | hx
    · rcases List.mem_append.1 hx with hx | hx
      · exact .inl (List.mem_append_left _ hx)
      · obtain rfl := List.mem_singleton.1 hx
        exact .inr hnew
    · exact .inl (hcons x hx)

theorem keeps_delete (c : Scan I) (fl : FileLock) (rest : List FileLock) :
    Keeps (c.front ++ fl :: rest) c.blocked ((c.deleteLock fl).front ++ rest)
      (c.deleteLock fl).blocked := by
  intro w hw
  obtain ⟨hw, hne⟩ := mem_locksWakeUpBlocks.1 hw
  refine ⟨hw, fun x hx hid => ⟨x, ?_, FileLock.extends_refl x⟩⟩
  rcases List.mem_append.1 hx with hx | hx
  · exact List.mem_append_left _ hx
  · rcases List.mem_cons.1 hx with rfl | hx
    exacts [absurd hid.symm hne, List.mem_append_right _ hx]

theorem Ok.keeps_grow {start last : ℤ} (h : c.Ok rest n) (hle : start ≤ c.request.flStart)
    (hge : c.request.flEnd ≤ last) : Keeps (c.front ++ rest) c.blocked
      ((c.grow start last).front ++ rest) (c.grow start last).blocked := by
  refine fun w hw => ⟨hw, fun x hx _ => ?_⟩
  rcases List.mem_append.1 hx with hx | hx
  · refine ⟨_, List.mem_append_left _ (mem_modify.2 ⟨x, hx, rfl⟩), ?_⟩
    split
    next hid =>
      obtain rfl := h.same x (List.mem_append_left _ hx) hid
      exact ⟨rfl, rfl, rfl, rfl, rfl, hle, hge⟩
    next => exact FileLock.extends_refl x
  · exact ⟨x, List.mem_append_right _ hx, FileLock.extends_refl x⟩

/-- A lock that gives way is woken, or it is extended. -/
theorem keeps_become {z : FileLock}
    (h : Extends fl z ∨ blocked' = locksWakeUpBlocks c.blocked fl.id)
    (hsub : ∀ w ∈ blocked', w ∈ c.blocked) :
    Keeps (c.front ++ fl :: rest) c.blocked
      ((({ c with blocked := blocked' } : Scan I).become z).front ++ rest) blocked' := by
  refine fun w hw => ⟨hsub w hw, fun x hx hid => ?_⟩
  have hlist : (({ c with blocked := blocked' } : Scan I).become z).front ++ rest =
      c.front ++ z :: rest := List.append_assoc ..
  rw [hlist]
  rcases List.mem_append.1 hx with hx | hx
  · exact ⟨x, List.mem_append_left _ hx, FileLock.extends_refl x⟩
  · rcases List.mem_cons.1 hx with rfl | hx
    · rcases h with hext | rfl
      · exact ⟨z, List.mem_append_right _ List.mem_cons_self, hext⟩
      · exact absurd hid.symm (mem_locksWakeUpBlocks.1 hw).2
    · exact ⟨x, List.mem_append_right _ (List.mem_cons_of_mem _ hx), FileLock.extends_refl x⟩

theorem Ok.keeps_merge (h : c.Ok (fl :: rest) n) : Keeps (c.front ++ fl :: rest) c.blocked
    ((c.merge fl).front ++ rest) (c.merge fl).blocked := by
  cases hadded : c.added with
  | true =>
    rw [merge_of_added hadded]
    exact (h.keeps_grow (min_le_left ..) (le_max_left ..)).trans (keeps_delete _ _ _)
  | false =>
    rw [h.merge_of_new hadded]
    exact keeps_become (.inl ⟨rfl, rfl, rfl, rfl, rfl, min_le_right .., le_max_right ..⟩)
      fun _ hw => hw

theorem keeps_replace (c : Scan I) (fl : FileLock) (rest : List FileLock) :
    Keeps (c.front ++ fl :: rest) c.blocked ((c.replace fl).front ++ rest)
      (c.replace fl).blocked := by
  unfold Scan.replace
  split
  next => exact keeps_delete _ _ _
  next => exact keeps_become (.inr rfl) fun w hw => (mem_locksWakeUpBlocks.1 hw).1

/-! ### The loop -/

/-- What a part of the loop leaves. -/
structure Follows (c : Scan I) (rest : List FileLock) (c' : Scan I) (rest' : List FileLock)
    (n : ℕ) : Prop where
  ok : c'.Ok rest' n
  key : c'.request.key = c.request.key
  type : c'.request.flType = c.request.flType
  ids : List.Sublist ((c'.front ++ rest').map FileLock.id) ((c.front ++ rest).map FileLock.id)
  pending : ∀ k t b, c'.Pending rest' k t b → c.Pending rest k t b
  keeps : Keeps (c.front ++ rest) c.blocked (c'.front ++ rest') c'.blocked

theorem Follows.trans {c' c'' : Scan I} {rest' rest'' : List FileLock}
    (h : Follows c rest c' rest' n) (h' : Follows c' rest' c'' rest'' n) :
    Follows c rest c'' rest'' n :=
  ⟨h'.ok, h'.key.trans h.key, h'.type.trans h.type, h'.ids.trans h.ids,
    fun k t b hp => h.pending k t b (h'.pending k t b hp), h.keeps.trans h'.keeps⟩

theorem Ok.follows (h : c.Ok rest n) : Follows c rest c rest n :=
  ⟨h, rfl, rfl, List.Sublist.refl _, fun _ _ _ => id, keeps_refl _ _⟩

/-- The lock where the loop has ended, if it sticks out of the range to the right. -/
structure Sticks (c : Scan I) (fl : FileLock) (rest : List FileLock) : Prop where
  head : rest.head? = some fl
  type : c.request.flType ≠ fl.flType
  added : c.request.flType = .unlck → c.added = true
  start : fl.flStart ≤ c.request.flEnd
  meets : c.request.flStart ≤ fl.flEnd
  last : c.request.flEnd < fl.flEnd

theorem Ok.visit (h : c.Ok (fl :: rest) n) (hkey : c.request.key = fl.key) :
    (∀ c', c.visit fl = (c', none) → Follows c (fl :: rest) c' rest n) ∧
      ∀ c' right, c.visit fl = (c', some right) → Follows c (fl :: rest) c' (fl :: rest) n ∧
        ∀ x ∈ right, Sticks c' x (fl :: rest) := by
  have hpass : ∀ c : Scan I, c.Ok (fl :: rest) n → Follows c (fl :: rest) (c.pass fl) rest n := by
    intro c hc
    have hlist : (c.pass fl).front ++ rest = c.front ++ fl :: rest := List.append_assoc ..
    refine ⟨hc.pass, rfl, rfl, hlist ▸ List.Sublist.refl _, fun k t b hp => ?_,
      hlist ▸ keeps_refl _ _⟩
    unfold Pending at hp
    rwa [hlist] at hp
  have htouch : c.request.flStart ≤ fl.flEnd →
      Follows c (fl :: rest) (c.touch fl) (fl :: rest) n := fun hmeet =>
    ⟨h.touch hmeet, rfl, rfl, List.Sublist.refl _, fun _ _ _ => id, keeps_refl _ _⟩
  have hv := visited h
  refine ⟨fun c' heq => ?_, fun c' right heq => ?_⟩
  · rw [heq] at hv
    cases hv with
    | before => exact hpass c h
    | merge hsame hleft hright =>
      refine ⟨h.merge, ?_, ?_, h.ids_merge,
        fun k t b => h.pending_merge hkey hsame hleft hright, h.keeps_merge⟩
      · cases hadded : c.added with
        | true => rw [merge_of_added hadded]; rfl
        | false => rw [h.merge_of_new hadded]; exact hkey.symm
      · cases hadded : c.added with
        | true => rw [merge_of_added hadded]; rfl
        | false => rw [h.merge_of_new hadded]; exact hsame.symm
    | replace hne hleft hright hmeet =>
      have hok := h.touch hmeet
      refine (htouch hmeet).trans ⟨hok.replace (touch_unlck c fl), ?_, ?_, ids_replace _ _ _,
        fun k t b => hok.pending_replace hkey, keeps_replace _ _ _⟩
      · unfold Scan.replace
        split
        exacts [rfl, hkey.symm]
      · unfold Scan.replace
        split <;> rfl
    | left hne hlt hleft hright => exact (htouch hleft).trans (hpass _ (h.touch hleft))
  · rw [heq] at hv
    cases hv with
    | beyond => exact ⟨h.follows, nofun⟩
    | right hne hleft hright hlt =>
      refine ⟨htouch hleft, ?_⟩
      intro x hx
      obtain rfl := Option.mem_some_iff.1 hx
      refine ⟨rfl, hne, fun hunlck => ?_, hright, hleft, hlt⟩
      by_contra hadded
      exact touch_unlck c fl (eq_false_of_ne_true hadded) hunlck

theorem Ok.scan (h : c.Ok rest n) : Follows c rest (c.scan rest).1 (c.scan rest).2.2 n ∧
    ∀ x ∈ (c.scan rest).2.1, Sticks (c.scan rest).1 x (c.scan rest).2.2 := by
  induction rest generalizing c with
  | nil => exact ⟨h.follows, nofun⟩
  | cons fl rest ih =>
    rw [Scan.scan]
    split
    next hsame =>
      obtain ⟨hgo, hstop⟩ := h.visit (FileLock.posixSameOwner_iff.1 hsame)
      split
      next c' heq =>
        obtain ⟨hfollows, hsticks⟩ := ih (hgo c' heq).ok
        exact ⟨(hgo c' heq).trans hfollows, hsticks⟩
      next c' right heq => exact hstop c' right heq
    next => exact ⟨h.follows, nofun⟩

/-- The locks of the owner after the call. -/
structure Result (c : Scan I) (rest : List FileLock) (n : ℕ) (l : List FileLock)
    (blocked : List (LockWaiter I)) : Prop where
  nodup : (l.map FileLock.id).Nodup
  lt : ∀ x ∈ l, x.id < n + 2
  ids : ∀ x ∈ l, x.id ∈ (c.front ++ rest).map FileLock.id ∨ n ≤ x.id
  posix : ∀ x ∈ l, x.flFlags = .posix
  bounds : ∀ x ∈ l, 0 ≤ x.flStart ∧ x.flEnd ≤ offsetMax
  type : ∀ x ∈ l, x.flType ≠ .unlck
  held : ∀ k t b, ∀ x ∈ l, x.Holds k t b → c.Pending rest k t b
  keeps : Keeps (c.front ++ rest) c.blocked l blocked

/-- A lock loses bytes, and who waits for it is woken. -/
theorem Result.modify (h : Result c rest n l blocked) (hid : ∀ x, (f x).id = x.id)
    (hposix : ∀ x, (f x).flFlags = x.flFlags) (htype : ∀ x, (f x).flType = x.flType)
    (hkey : ∀ x, (f x).key = x.key) (hstart : ∀ x ∈ l, x.id = m → x.flStart ≤ (f x).flStart)
    (hlast : ∀ x ∈ l, x.id = m → (f x).flEnd ≤ x.flEnd) :
    Result c rest n (modify l m f) (locksWakeUpBlocks blocked m) := by
  refine ⟨?_, fun x hx => ?_, fun x hx => ?_, fun x hx => ?_, fun x hx => ?_, fun x hx => ?_,
    fun k t b x hx hholds => ?_, h.keeps.trans (keeps_modify _ _ _ _)⟩
  · rw [map_id_modify hid]
    exact h.nodup
  all_goals
    obtain ⟨y, hy, rfl⟩ := mem_modify.1 hx
    by_cases hm : y.id = m
  all_goals first | rw [if_pos hm] | rw [if_neg hm] | skip
  · exact (hid y).symm ▸ h.lt y hy
  · exact h.lt y hy
  · exact (hid y).symm ▸ h.ids y hy
  · exact h.ids y hy
  · exact (hposix y).trans (h.posix y hy)
  · exact h.posix y hy
  · have := h.bounds y hy
    have := hstart y hy hm
    have := hlast y hy hm
    constructor <;> omega
  · exact h.bounds y hy
  · exact htype y ▸ h.type y hy
  · exact h.type y hy
  · rw [if_pos hm] at hholds
    refine h.held k t b y hy ⟨h.posix y hy, hkey y ▸ hholds.key, htype y ▸ hholds.type, ?_, ?_⟩
    · exact le_trans (hstart y hy hm) hholds.start
    · exact le_trans hholds.last (hlast y hy hm)
  · rw [if_neg hm] at hholds
    exact h.held k t b y hy hholds

/-- New locks, where the loop has ended. -/
theorem Ok.result (h : c.Ok rest n) {new : List FileLock} (hnodup : (new.map FileLock.id).Nodup)
    (hid : ∀ x ∈ new, n ≤ x.id ∧ x.id < n + 2) (hposix : ∀ x ∈ new, x.flFlags = .posix)
    (hbounds : ∀ x ∈ new, 0 ≤ x.flStart ∧ x.flEnd ≤ offsetMax)
    (htype : ∀ x ∈ new, x.flType ≠ .unlck)
    (hheld : ∀ k t b, ∀ x ∈ new, x.Holds k t b → c.Pending rest k t b) :
    Result c rest n (c.front ++ (new ++ rest)) c.blocked := by
  have hmem : ∀ x ∈ c.front ++ (new ++ rest), x ∈ c.front ++ rest ∨ x ∈ new := fun x hx => by
    simp only [List.mem_append] at hx ⊢
    tauto
  refine ⟨?_, fun x hx => ?_, fun x hx => (hmem x hx).imp (List.mem_map_of_mem) fun hx =>
      (hid x hx).1, fun x hx => (hmem x hx).elim (h.posix x) (hposix x),
    fun x hx => (hmem x hx).elim (h.bounds x) (hbounds x),
    fun x hx => (hmem x hx).elim (h.type x) (htype x),
    fun k t b x hx hholds => (hmem x hx).elim (fun hx => .inl ⟨x, hx, hholds⟩)
      fun hx => hheld k t b x hx hholds, fun w hw => ⟨hw, fun x hx _ => ⟨x, ?_,
        FileLock.extends_refl x⟩⟩⟩
  · rw [((List.perm_append_comm_assoc c.front new rest).map FileLock.id).nodup_iff, List.map_append]
    refine hnodup.append h.nodup fun k hk hk' => ?_
    obtain ⟨x, hx, rfl⟩ := List.mem_map.1 hk
    obtain ⟨y, hy, hxy⟩ := List.mem_map.1 hk'
    have := h.lt y hy
    have := (hid x hx).1
    omega
  · rcases hmem x hx with hx | hx
    · have := h.lt x hx
      omega
    · exact (hid x hx).2
  · rcases List.mem_append.1 hx with hx | hx
    · exact List.mem_append_left _ hx
    · exact List.mem_append_right _ (List.mem_append_right _ hx)

theorem mem_newFl (hx : x ∈ c.newFl n) : x = { c.request with id := n } ∧ c.added = false := by
  unfold newFl at hx
  split at hx
  next => cases hx
  next hadded => exact ⟨List.mem_singleton.1 hx, eq_false_of_ne_true hadded⟩

theorem Result.cutLeft (hr : Result c rest n l blocked) (h : c.Ok rest n) (left : Option ℕ)
    (hleft : ∀ x ∈ l, left = some x.id → c.request.flStart ≤ x.flEnd) :
    Result c rest n (c.cutLeft left (l, blocked)).1 (c.cutLeft left (l, blocked)).2 := by
  have hstart := h.start
  have hrange := h.range
  have hlast := h.last
  cases left with
  | none => exact hr
  | some k =>
    refine hr.modify (fun _ => rfl) (fun _ => rfl) (fun _ => rfl) (fun _ => rfl)
      (fun _ _ _ => le_refl _) fun x hx hid => ?_
    have := hleft x hx (congrArg some hid.symm)
    change loff (c.request.flStart - 1) ≤ x.flEnd
    rw [FileLock.loff_of_lt (by omega) (by omega)]
    omega

theorem Result.cutRight (hr : Result c rest n l blocked) (h : c.Ok rest n)
    (hsticks : Sticks c fl rest) (hfl : ∀ x ∈ l, x.id = fl.id → x.flStart = fl.flStart) :
    Result c rest n (c.cutRight fl (l, blocked)).1 (c.cutRight fl (l, blocked)).2 := by
  have hmax := (h.bounds fl (List.mem_append_right _ (List.mem_of_head? hsticks.head))).2
  have hstart := h.start
  have hrange := h.range
  have hlast := hsticks.last
  refine hr.modify (fun _ => rfl) (fun _ => rfl) (fun _ => rfl) (fun _ => rfl)
    (fun x hx hid => ?_) fun _ _ _ => le_refl _
  change x.flStart ≤ loff (c.request.flEnd + 1)
  rw [hfl x hx hid, FileLock.loff_of_lt (by omega) (by omega)]
  have := hsticks.start
  omega

/-- What is left of the lock to the right has the end that it had. -/
theorem mem_cutRight (hx : x ∈ (c.cutRight fl (l, blocked)).1) :
    ∃ y ∈ l, x.id = y.id ∧ x.flEnd = y.flEnd := by
  obtain ⟨y, hy, rfl⟩ := mem_modify.1 hx
  refine ⟨y, hy, ?_⟩
  split <;> exact ⟨rfl, rfl⟩

theorem Ok.finish (h : c.Ok rest n) (right : Option FileLock)
    (hsticks : ∀ x ∈ right, Sticks c x rest) :
    Result c rest n (c.finish right rest n).1 (c.finish right rest n).2 := by
  unfold Scan.finish
  split
  · have hnil : (([] : List FileLock).map FileLock.id).Nodup := List.nodup_nil
    exact h.result hnil nofun nofun nofun nofun nofun
  next hbase =>
    have hunlck : ∀ x ∈ c.newFl n, c.request.flType ≠ .unlck := fun x hx htype =>
      hbase ⟨by simp [(mem_newFl hx).2], htype⟩
    have hnodup : ((c.newFl n).map FileLock.id).Nodup := by
      unfold newFl
      split <;> simp
    have hmem : ∀ new2 : List FileLock, ∀ x ∈ c.front ++ (new2 ++ c.newFl n ++ rest),
        x ∈ c.front ++ rest ∨ x ∈ new2 ∨ x ∈ c.newFl n := fun new2 x hx => by
      simp only [List.mem_append] at hx ⊢
      tauto
    have hlist : Result c rest n (c.front ++ (c.newFl n ++ rest)) c.blocked := by
      refine h.result hnodup (fun x hx => ?_) (fun x hx => ?_) (fun x hx => ?_) (fun x hx => ?_)
        fun k t b x hx hholds => .inr ?_
      all_goals obtain rfl := (mem_newFl hx).1
      · exact ⟨Nat.le_refl n, by simp only; omega⟩
      · exact h.request
      · exact ⟨h.start, h.last⟩
      · exact hunlck _ hx
      · exact ⟨hholds.posix, hholds.key, hholds.type, hholds.start, hholds.last⟩
    have hleft : ∀ x ∈ c.front ++ (c.newFl n ++ rest), c.left = some x.id →
        c.request.flStart ≤ x.flEnd := fun x hx hid => by
      rcases hmem [] x hx with hx | hx | hx
      · exact h.left x hx hid
      · cases hx
      · obtain rfl := (mem_newFl hx).1
        exact h.range
    cases right with
    | none => exact hlist.cutLeft h c.left hleft
    | some fl =>
      have hs := hsticks fl rfl
      have hfl : fl ∈ c.front ++ rest := List.mem_append_right _ (List.mem_of_head? hs.head)
      have hlt := h.lt fl hfl
      have hsame : ∀ new2 : List FileLock, (∀ x ∈ new2, n ≤ x.id) →
          ∀ x ∈ c.front ++ (new2 ++ c.newFl n ++ rest), x.id = fl.id → x.flStart = fl.flStart := by
        intro new2 hnew2 x hx hid
        rcases hmem new2 x hx with hx | hx | hx
        · rw [List.inj_on_of_nodup_map h.nodup hx hfl hid]
        · have := hnew2 x hx
          omega
        · obtain rfl := (mem_newFl hx).1
          exact absurd hid (by simp only; omega)
      dsimp only
      split
      next hsplit =>
        -- the first piece is a new lock
        have hpiece : Result c rest n (c.front ++ ({ fl with id := n + 1 } :: c.newFl n ++ rest))
            c.blocked := by
          refine h.result ?_ (fun x hx => ?_) (fun x hx => ?_) (fun x hx => ?_) (fun x hx => ?_)
            fun k t b x hx hholds => ?_
          · refine List.nodup_cons.2 ⟨fun hn => ?_, hnodup⟩
            obtain ⟨y, hy, hid⟩ := List.mem_map.1 hn
            rw [(mem_newFl hy).1] at hid
            simp at hid
          all_goals rcases List.mem_cons.1 hx with rfl | hx
          · exact ⟨by simp only; omega, by simp only; omega⟩
          · obtain rfl := (mem_newFl hx).1
            exact ⟨Nat.le_refl n, by simp only; omega⟩
          · exact h.posix fl hfl
          · exact (mem_newFl hx).1 ▸ h.request
          · exact h.bounds fl hfl
          · exact (mem_newFl hx).1 ▸ ⟨h.start, h.last⟩
          · exact h.type fl hfl
          · exact (mem_newFl hx).1 ▸ hunlck x hx
          · exact .inl ⟨fl, hfl, hholds.posix, hholds.key, hholds.type, hholds.start, hholds.last⟩
          · obtain rfl := (mem_newFl hx).1
            exact .inr ⟨hholds.posix, hholds.key, hholds.type, hholds.start, hholds.last⟩
        refine (hpiece.cutRight h hs (hsame [_] ?_)).cutLeft h _ fun x hx hid => ?_
        · rintro x hx
          obtain rfl := List.mem_singleton.1 hx
          simp only
          omega
        · obtain ⟨y, hy, hxid, hlast⟩ := mem_cutRight hx
          rw [hlast]
          have hyid : y.id = n + 1 := hxid ▸ (Option.some.inj hid).symm
          rcases hmem [_] y hy with hy | hy | hy
          · have := h.lt y hy
            omega
          · obtain rfl := List.mem_singleton.1 hy
            exact hs.meets
          · obtain rfl := (mem_newFl hy).1
            simp at hyid
      next hother =>
        refine (hlist.cutRight h hs (hsame [] nofun)).cutLeft h c.left fun x hx hid => ?_
        obtain ⟨y, hy, hxid, hlast⟩ := mem_cutRight hx
        exact hlast ▸ hleft y hy (hid.trans (congrArg some hxid))

end Scan

/-! ### One file -/

/-- The list of a file. -/
structure Valid (l : List FileLock) : Prop where
  nodup : (l.map FileLock.id).Nodup
  posixLast : l.Pairwise fun x y => x.flFlags = .posix → y.flFlags = .posix
  bounds : ∀ x ∈ l, 0 ≤ x.flStart ∧ x.flEnd ≤ offsetMax
  type : ∀ x ∈ l, x.flType ≠ .unlck
  flocks : ∀ x ∈ l, ∀ y ∈ l, x.flFlags = .flock → ¬ flockLocksConflict x y
  posix : ∀ x ∈ l, ∀ y ∈ l, ∀ k k' t t' b, k ≠ k' → x.Holds k t b → y.Holds k' t' b →
    t ≠ .wrlck

theorem Valid.filter (h : Valid l) (p : FileLock → Bool) : Valid (l.filter p) where
  nodup := h.nodup.sublist (List.filter_sublist.map _)
  posixLast := h.posixLast.sublist List.filter_sublist
  bounds x hx := h.bounds x (List.mem_of_mem_filter hx)
  type x hx := h.type x (List.mem_of_mem_filter hx)
  flocks x hx y hy := h.flocks x (List.mem_of_mem_filter hx) y (List.mem_of_mem_filter hy)
  posix x hx y hy := h.posix x (List.mem_of_mem_filter hx) y (List.mem_of_mem_filter hy)

theorem skips_eq_false {request : FileLock} :
    skips request x = false ↔ x.flFlags = .posix ∧ request.key = x.key := by
  simp only [skips, FileLock.posixSameOwner_iff, decide_eq_false_iff_not, not_or, not_not, ne_eq]

/-- Behind the first POSIX lock there are only POSIX locks. -/
theorem Valid.posix_of_mem (h : Valid l) {p : FileLock → Bool}
    (hp : ∀ x, p x = false → x.flFlags = .posix) : ∀ x ∈ l.dropWhile p, x.flFlags = .posix := by
  intro x hx
  cases hdrop : l.dropWhile p with
  | nil => simp [hdrop] at hx
  | cons y r =>
    have hy : y.flFlags = .posix := by
      have := List.head_dropWhile_not p (l := l) (by simp [hdrop])
      simp only [hdrop, List.head_cons] at this
      exact hp y this
    have hpair := h.posixLast.sublist (List.dropWhile_sublist p)
    rw [hdrop] at hx hpair
    rcases List.mem_cons.1 hx with rfl | hx
    · exact hy
    · exact List.rel_of_pairwise_cons hpair hx hy

theorem Valid.mem_flocks (h : Valid l) (hx : x ∈ l) (hflock : x.flFlags = .flock) :
    x ∈ FileLocks.flocks l := by
  rw [← List.takeWhile_append_dropWhile (p := fun fl => decide (fl.flFlags = .flock)) (l := l)]
    at hx
  rcases List.mem_append.1 hx with hx | hx
  · exact hx
  · have := h.posix_of_mem (fun y hy => ?_) x hx
    · rw [hflock] at this
      cases this
    · cases hflag : y.flFlags with
      | posix => rfl
      | flock => simp [hflag] at hy

/-- A request for a range of bytes. -/
structure Valid.Request (request : FileLock) : Prop where
  posix : request.flFlags = .posix
  start : 0 ≤ request.flStart
  range : request.flStart ≤ request.flEnd
  last : request.flEnd ≤ offsetMax

/-- The loop begins with the locks of the owner. -/
theorem Valid.ok {request : FileLock} (h : Valid l) (blocked : List (LockWaiter I))
    (hr : Valid.Request request)
    (hid : ∀ x ∈ l, x.id ≠ request.id) (hlt : ∀ x ∈ l, x.id < n) :
    ({ front := [], blocked := blocked, request := request, added := false
       left := none } : Scan I).Ok (l.dropWhile (skips request)) n := by
  have hsub : ∀ x ∈ l.dropWhile (skips request), x ∈ l := fun x hx =>
    (List.dropWhile_sublist _).subset hx
  exact
    { nodup := h.nodup.sublist ((List.dropWhile_sublist _).map _)
      lt := fun x hx => hlt x (hsub x hx)
      posix := h.posix_of_mem fun x hx => (skips_eq_false.1 hx).1
      bounds := fun x hx => h.bounds x (hsub x hx)
      type := fun x hx => h.type x (hsub x hx)
      same := fun x hx heq => absurd heq (hid x (hsub x hx))
      fresh := fun x hx => hid x (hsub x hx)
      alone := nofun
      request := hr.posix
      start := hr.start
      range := hr.range
      last := hr.last
      left := nofun }

/-- **A granted request.** -/
theorem Valid.posixApply {request : FileLock} (h : Valid l) (blocked : List (LockWaiter I))
    (hr : Valid.Request request)
    (hid : ∀ x ∈ l, x.id ≠ request.id) (hlt : ∀ x ∈ l, x.id < n)
    (hclear : request.flType ≠ .unlck → ∀ x ∈ l, ¬ posixLocksConflict request x) :
    Valid (posixApply l blocked request n).1 ∧
      (∀ x ∈ (posixApply l blocked request n).1, x.id < n + 2) ∧
      Keeps l blocked (posixApply l blocked request n).1 (posixApply l blocked request n).2 := by
  have hok := h.ok blocked hr hid hlt
  unfold FileLocks.posixApply
  generalize hscan : Scan.scan _ (l.dropWhile (skips request)) = result
  obtain ⟨hfollows, hsticks⟩ := hok.scan
  rw [hscan] at hfollows hsticks
  obtain ⟨c, right, rest⟩ := result
  have hresult := hfollows.ok.finish right hsticks
  dsimp only at hfollows hresult ⊢
  generalize c.finish right rest n = own at hresult ⊢
  obtain ⟨own, blocked'⟩ := own
  dsimp only at hresult ⊢
  have hl := List.takeWhile_append_dropWhile (p := skips request) (l := l)
  set front := l.takeWhile (skips request) with hfront
  have hfl : ∀ x ∈ front, x ∈ l := fun x hx => (List.takeWhile_sublist _).subset hx
  -- where the bytes come from
  have hheld : ∀ x ∈ front ++ own, ∀ k t b, x.Holds k t b →
      (∃ y ∈ l, y.Holds k t b) ∨ request.Holds k t b ∧ request.flType ≠ .unlck := by
    intro x hx k t b hholds
    rcases List.mem_append.1 hx with hx | hx
    · exact .inl ⟨x, hfl x hx, hholds⟩
    · have htype := hresult.type x hx
      rcases hfollows.pending k t b (hresult.held k t b x hx hholds) with ⟨y, hy, hyh⟩ | hq
      · exact .inl ⟨y, (List.dropWhile_sublist _).subset hy, hyh⟩
      · exact .inr ⟨hq, fun heq => htype (hholds.type.trans (hq.type.symm.trans heq))⟩
  have hnew : ∀ y ∈ l, ∀ k k' t t' b, k ≠ k' → request.flType ≠ .unlck → request.Holds k t b →
      y.Holds k' t' b → t ≠ .wrlck ∧ t' ≠ .wrlck := by
    intro y hy k k' t t' b hne htype hq hyh
    have hno := hclear htype y hy
    have hstart := hq.start
    have hlast := hq.last
    have hstart' := hyh.start
    have hlast' := hyh.last
    refine not_or.1 fun hw => hno ⟨hyh.posix, ?_, ⟨by omega, by omega⟩, ?_⟩
    · rw [FileLock.posixSameOwner_iff, hq.key, hyh.key]
      exact hne
    · unfold FileLock.locksConflict
      rw [hq.type, hyh.type]
      exact hw.symm
  refine ⟨⟨?_, ?_, fun x hx => ?_, fun x hx => ?_, fun x hx y hy hflock => ?_,
    fun x hx y hy k k' t t' b hne hxh hyh => ?_⟩, fun x hx => ?_, fun w hw => ?_⟩
  · have hnodup := h.nodup
    rw [← hl, List.map_append] at hnodup
    rw [List.map_append]
    refine hnodup.of_append_left.append hresult.nodup fun k hk hk' => ?_
    obtain ⟨x, hx, rfl⟩ := List.mem_map.1 hk
    obtain ⟨y, hy, hxy⟩ := List.mem_map.1 hk'
    rcases hresult.ids y hy with hin | hge
    · exact (List.nodup_append'.1 hnodup).2.2 hk (hxy ▸ hfollows.ids.subset hin)
    · have := hlt x (hfl x hx)
      omega
  · have hpair := h.posixLast
    rw [← hl] at hpair
    exact List.pairwise_append.2 ⟨(List.pairwise_append.1 hpair).1,
      List.pairwise_of_forall_mem_list fun x _ y hy _ => hresult.posix y hy,
      fun x _ y hy _ => hresult.posix y hy⟩
  · rcases List.mem_append.1 hx with hx | hx
    exacts [h.bounds x (hfl x hx), hresult.bounds x hx]
  · rcases List.mem_append.1 hx with hx | hx
    exacts [h.type x (hfl x hx), hresult.type x hx]
  · rintro ⟨hyflock, hconf⟩
    have hold : ∀ x ∈ front ++ own, x.flFlags = .flock → x ∈ l := fun x hx hflock => by
      rcases List.mem_append.1 hx with hx | hx
      · exact hfl x hx
      · exact absurd (hflock.symm.trans (hresult.posix x hx)) nofun
    exact h.flocks x (hold x hx hflock) y (hold y hy hyflock) hflock ⟨hyflock, hconf⟩
  · rcases hheld x hx k t b hxh with ⟨x', hx', hxh'⟩ | ⟨hq, htype⟩
    · rcases hheld y hy k' t' b hyh with ⟨y', hy', hyh'⟩ | ⟨hq', htype⟩
      · exact h.posix x' hx' y' hy' k k' t t' b hne hxh' hyh'
      · exact (hnew x' hx' k' k t' t b hne.symm htype hq' hxh').2
    · rcases hheld y hy k' t' b hyh with ⟨y', hy', hyh'⟩ | ⟨hq', -⟩
      · exact (hnew y' hy' k k' t t' b hne htype hq hyh').1
      · exact absurd (hq.key.symm.trans hq'.key) hne
  · rcases List.mem_append.1 hx with hx | hx
    · have := hlt x (hfl x hx)
      omega
    · exact hresult.lt x hx
  · obtain ⟨hw₁, hlock₁⟩ := hresult.keeps w hw
    obtain ⟨hw₀, hlock₀⟩ := hfollows.keeps w hw₁
    refine ⟨hw₀, fun x hx hid => ?_⟩
    rw [← hl] at hx
    rcases List.mem_append.1 hx with hx | hx
    · exact ⟨x, List.mem_append_left _ hx, FileLock.extends_refl x⟩
    · obtain ⟨y, hy, hxy⟩ := hlock₀ x hx hid
      obtain ⟨z, hz, hyz⟩ := hlock₁ y hy (hxy.id.trans hid)
      exact ⟨z, List.mem_append_right _ hz, hxy.trans hyz⟩

/-! ### Requests -/

/-- The range of a request is in order. -/
theorem flock64Range_ok {base : BitVec 64} {q : Flock64} {start last : ℤ}
    (h : flock64Range base q = .ok (start, last)) :
    0 ≤ start ∧ start ≤ last ∧ last ≤ offsetMax := by
  have hmax : offsetMax = 0x7fffffffffffffff := rfl
  have hstart := (base + q.lStart).toInt_lt
  have hlen := q.lLen.toInt_lt
  have hlast : (base + q.lStart).toInt + q.lLen.toInt - 1 ≤ offsetMax ∧
        loff ((base + q.lStart).toInt + q.lLen.toInt - 1) =
          (base + q.lStart).toInt + q.lLen.toInt - 1 ∨
      offsetMax < (base + q.lStart).toInt + q.lLen.toInt - 1 ∧
        loff ((base + q.lStart).toInt + q.lLen.toInt - 1) =
          (base + q.lStart).toInt + q.lLen.toInt - 1 - 0x10000000000000000 ∨
      (base + q.lStart).toInt + q.lLen.toInt - 1 < -1 := by
    simp only [loff, Int.bmod]
    omega
  unfold flock64Range at h
  dsimp only at h
  split at h
  · cases h
  · split at h
    · cases h
    · obtain ⟨rfl, rfl⟩ := Prod.mk.inj (Except.ok.inj h)
      split <;> omega

theorem flock64ToPosixLock_ok {fPos iSize : BitVec 64} {q : Flock64} {start last : ℤ}
    (h : flock64ToPosixLock fPos iSize q = .ok (start, last)) :
    0 ≤ start ∧ start ≤ last ∧ last ≤ offsetMax := by
  unfold flock64ToPosixLock at h
  split at h
  · exact flock64Range_ok h
  · exact flock64Range_ok h
  · exact flock64Range_ok h
  · cases h

variable [DecidableEq I] {s s' : FileLocks I} {i : I} {request : FileLock} {e : ℤ}
  {sleep access mem : Bool}

/-- What a request can do. -/
inductive Requested (s : FileLocks I) (i : I) (request : FileLock) (sleep access : Bool) :
    FileLocks I → ℤ → Prop
  | same (e : ℤ) (he : e = 0 → access = true) : Requested s i request sleep access s e
  | waits (fl : FileLock) (hfl : fl ∈ s.iFlock i) (hconf : posixLocksConflict request fl)
      (hsleep : sleep = true) (hdead : s.posixLocksDeadlock request (s.blockedList.length + 1)
        fl.key = some false) :
      Requested s i request sleep access (s.locksInsertBlock i fl request) (-errEAGAIN)
  | granted (haccess : access = false) (hclear : request.flType ≠ .unlck →
      ∀ fl ∈ s.iFlock i, ¬ posixLocksConflict request fl) :
      Requested s i request sleep access ({ s with next := s.next + 2 }.setLocks i
        (posixApply (s.iFlock i) s.blockedList request s.next)) 0

theorem requested (h : s.rawPosixLockFile i request sleep access mem = some (s', e)) :
    Requested s i request sleep access s' e := by
  unfold rawPosixLockFile at h
  dsimp only at h
  split at h
  next fl hconf =>
    split at hconf
    · cases hconf
    · have hfl := List.mem_of_find?_eq_some hconf
      have hc : posixLocksConflict request fl := prop_of_find hconf
      split at h
      next hsleep =>
        split at h
        · cases h
        · cases h
          exact .same _ nofun
        next hdead =>
          cases h
          exact .waits fl hfl hc hsleep hdead
      · cases h
        exact .same _ nofun
  next hconf =>
    have hclear : request.flType ≠ .unlck →
        ∀ fl ∈ s.iFlock i, ¬ posixLocksConflict request fl := fun htype fl hfl hc => by
      rw [if_neg htype] at hconf
      exact List.find?_eq_none.1 hconf fl hfl (decide_eq_true hc)
    split at h
    next haccess =>
      cases h
      exact .same _ fun _ => haccess
    next haccess =>
      split at h
      · cases h
        exact .granted (eq_false_of_ne_true haccess) hclear
      · cases h
        exact .same _ nofun

/-! ### All files -/

/-- What is true in every state. -/
structure Inv (s : FileLocks I) : Prop where
  valid : ∀ i, Valid (s.iFlock i)
  lt : ∀ i, ∀ x ∈ s.iFlock i, x.id < s.next
  waits : ∀ w ∈ s.blockedList, ∃ x ∈ s.iFlock w.inode, x.id = w.flNext ∧
    (posixLocksConflict w.lock x ∨ flockLocksConflict w.lock x)

theorem inv_init : (machine I).init.Inv where
  valid _ := ⟨List.nodup_nil, .nil, nofun, nofun, nofun, nofun⟩
  lt _ := nofun
  waits := nofun

/-- Who still waits still waits for a lock. -/
def Stays (s s' : FileLocks I) : Prop :=
  ∀ w ∈ s'.blockedList, w ∈ s.blockedList ∧
    ∀ x ∈ s.iFlock w.inode, x.id = w.flNext → ∃ y ∈ s'.iFlock w.inode, Extends x y

omit [DecidableEq I] in
theorem stays_of_eq (hlocks : s'.iFlock = s.iFlock)
    (hblocked : ∀ w ∈ s'.blockedList, w ∈ s.blockedList) : Stays s s' := fun w hw =>
  ⟨hblocked w hw, fun x hx _ => ⟨x, hlocks ▸ hx, FileLock.extends_refl x⟩⟩

theorem stays_setLocks (hkeeps : Keeps (s.iFlock i) s.blockedList l blocked) :
    Stays s ({ s with next := m }.setLocks i (l, blocked)) := by
  intro w hw
  obtain ⟨hw, hlock⟩ := hkeeps w hw
  refine ⟨hw, fun x hx hid => ?_⟩
  change ∃ y ∈ Function.update s.iFlock i l w.inode, _
  rcases eq_or_ne w.inode i with hi | hne
  · rw [hi] at hx
    rw [hi, Function.update_self]
    exact hlock x hx hid
  · rw [Function.update_of_ne hne]
    exact ⟨x, hx, FileLock.extends_refl x⟩

theorem Inv.setLocks (hI : s.Inv) (hnext : s.next ≤ m) (hvalid : Valid l)
    (hlt : ∀ x ∈ l, x.id < m) (hkeeps : Keeps (s.iFlock i) s.blockedList l blocked) :
    ({ s with next := m }.setLocks i (l, blocked)).Inv where
  valid j := by
    change Valid (Function.update s.iFlock i l j)
    rcases eq_or_ne j i with rfl | hne
    · rwa [Function.update_self]
    · rw [Function.update_of_ne hne]
      exact hI.valid j
  lt j x hx := by
    change x ∈ Function.update s.iFlock i l j at hx
    rcases eq_or_ne j i with rfl | hne
    · rw [Function.update_self] at hx
      exact hlt x hx
    · rw [Function.update_of_ne hne] at hx
      exact Nat.lt_of_lt_of_le (hI.lt j x hx) hnext
  waits w hw := by
    obtain ⟨hw, hlock⟩ := stays_setLocks (m := m) hkeeps w hw
    obtain ⟨x, hx, hid, hconf⟩ := hI.waits w hw
    obtain ⟨y, hy, hxy⟩ := hlock x hx hid
    exact ⟨y, hy, hxy.id.trans hid, hconf.imp hxy.posixLocksConflict hxy.flockLocksConflict⟩

omit [DecidableEq I] in
theorem Inv.locksInsertBlock (hI : s.Inv) (hfl : fl ∈ s.iFlock i)
    (hconf : posixLocksConflict request fl ∨ flockLocksConflict request fl) :
    (s.locksInsertBlock i fl request).Inv where
  valid := hI.valid
  lt := hI.lt
  waits w hw := by
    rcases List.mem_cons.1 hw with rfl | hw
    exacts [⟨fl, hfl, rfl, hconf⟩, hI.waits w hw]

omit [DecidableEq I] in
theorem Inv.locksAllocLock (hI : s.Inv) : s.locksAllocLock.Inv where
  valid := hI.valid
  lt j x hx := Nat.lt_succ_of_lt (hI.lt j x hx)
  waits := hI.waits

theorem keeps_deleteLocks (s : FileLocks I) (i : I) (p : FileLock → Bool) :
    Keeps (s.iFlock i) s.blockedList ((s.iFlock i).filter fun fl => !p fl)
      (s.deleteLocks i p).blockedList := by
  intro w hw
  obtain ⟨hw, hall⟩ := List.mem_filter.1 hw
  refine ⟨hw, fun x hx hid => ⟨x, List.mem_filter.2 ⟨hx, ?_⟩, FileLock.extends_refl x⟩⟩
  have := List.all_eq_true.1 hall x hx
  simpa [hid] using this

theorem Inv.deleteLocks (hI : s.Inv) (i : I) (p : FileLock → Bool) :
    (s.deleteLocks i p).Inv ∧ Stays s (s.deleteLocks i p) :=
  ⟨hI.setLocks (Nat.le_refl _) ((hI.valid i).filter _)
    (fun x hx => hI.lt i x (List.mem_of_mem_filter hx)) (keeps_deleteLocks s i p),
    stays_setLocks (m := s.next) (keeps_deleteLocks s i p)⟩

/-- Who may have to wait for this call. -/
def sleeper : LockAct I → Option (LockFlag × (ℕ × ℕ))
  | .setlk64 _ owner pid _ _ _ _ true _ => some (.posix, (owner, pid))
  | .mandatoryArea _ owner pid _ _ _ _ true => some (.posix, (owner, pid))
  | .flockTake _ owner pid _ _ true => some (.flock, (owner, pid))
  | _ => none

/-- What a call leaves of the requests that wait. -/
inductive Acted (s : FileLocks I) (a : LockAct I) : FileLocks I → Prop
  | stays {s' : FileLocks I} (h : Stays s s') : Acted s a s'
  | blocks (i : I) (fl request : FileLock) (hfl : fl ∈ s.iFlock i)
      (hsleeps : sleeper a = some (request.flFlags, request.key))
      (hdead : request.flFlags = .posix → s.locksAllocLock.posixLocksDeadlock request
        (s.blockedList.length + 1) fl.key = some false) :
      Acted s a (s.locksAllocLock.locksInsertBlock i fl request)

/-- **A request.** -/
theorem Inv.requested {a : LockAct I} (hI : s.Inv) (hr : access = false → Valid.Request request)
    (hid : request.id = s.next)
    (hsleeps : sleep = true → sleeper a = some (request.flFlags, request.key))
    (h : Requested s.locksAllocLock i request sleep access s' e) : s'.Inv ∧ Acted s a s' := by
  have hI' := hI.locksAllocLock
  cases h with
  | same => exact ⟨hI', .stays (stays_of_eq rfl fun _ hw => hw)⟩
  | waits fl hfl hconf hsleep hdead =>
    exact ⟨hI'.locksInsertBlock hfl (.inl hconf),
      .blocks i fl request hfl (hsleeps hsleep) fun _ => hdead⟩
  | granted haccess hclear =>
    obtain ⟨hvalid, hlt, hkeeps⟩ := (hI.valid i).posixApply s.blockedList
      (n := s.next + 1) (hr haccess) (fun x hx => by have := hI.lt i x hx; omega) (hI'.lt i) hclear
    exact ⟨hI'.setLocks (Nat.le_add_right ..) hvalid hlt hkeeps,
      .stays (stays_setLocks (m := s.next + 1 + 2) hkeeps)⟩

theorem Inv.flockTake (hI : s.Inv) (i : I) (owner pid file : ℕ) (type : LockType) (sleep : Bool) :
    (s.flockTake i owner pid file type sleep).1.Inv ∧
      Acted s (.flockTake i owner pid file type sleep)
        (s.flockTake i owner pid file type sleep).1 := by
  have hI' := hI.locksAllocLock
  unfold FileLocks.flockTake
  split
  · exact ⟨hI, .stays (stays_of_eq rfl fun _ hw => hw)⟩
  next htype =>
    dsimp only
    split
    next fl hfind =>
      have hfl : fl ∈ s.iFlock i :=
        (List.takeWhile_sublist _).subset (List.mem_of_find?_eq_some hfind)
      cases sleep with
      | true =>
        exact ⟨hI'.locksInsertBlock hfl (.inr (prop_of_find hfind)),
          .blocks i fl _ hfl rfl nofun⟩
      | false => exact ⟨hI', .stays (stays_of_eq rfl fun _ hw => hw)⟩
    next hfind =>
      have hv := hI.valid i
      have hno : ∀ x ∈ s.iFlock i, x.flFlags = .flock → ¬ flockLocksConflict _ x :=
        fun x hx hflock hc =>
          List.find?_eq_none.1 hfind x (hv.mem_flocks hx hflock) (decide_eq_true hc)
      have hkeeps : ∀ fl, Keeps (s.iFlock i) s.blockedList (fl :: s.iFlock i) s.blockedList :=
        fun _ w hw => ⟨hw, fun x hx _ => ⟨x, List.mem_cons_of_mem _ hx, FileLock.extends_refl x⟩⟩
      refine ⟨hI'.setLocks (Nat.le_refl _) ⟨?_, ?_, ?_, ?_, ?_, ?_⟩ ?_ (hkeeps _),
        .stays (stays_setLocks (m := s.next + 1) (hkeeps _))⟩
      · refine List.nodup_cons.2 ⟨fun hn => ?_, hv.nodup⟩
        obtain ⟨x, hx, hid⟩ := List.mem_map.1 hn
        exact absurd hid (Nat.ne_of_lt (hI.lt i x hx))
      · exact List.pairwise_cons.2 ⟨fun _ _ hp => (nomatch hp), hv.posixLast⟩
      · exact List.forall_mem_cons.2 ⟨⟨le_refl _, le_refl _⟩, hv.bounds⟩
      · exact List.forall_mem_cons.2 ⟨htype, hv.type⟩
      · intro x hx y hy hflock hc
        rcases List.mem_cons.1 hx with rfl | hx
        · rcases List.mem_cons.1 hy with rfl | hy
          exacts [hc.2.1 rfl, hno y hy hc.1 hc]
        · rcases List.mem_cons.1 hy with rfl | hy
          exacts [hno x hx hflock ⟨hflock, hc.2.1.symm, hc.2.2.symm⟩, hv.flocks x hx y hy hflock hc]
      · intro x hx y hy k k' t t' b hne hxh hyh
        rcases List.mem_cons.1 hx with rfl | hx
        · exact absurd hxh.posix nofun
        · rcases List.mem_cons.1 hy with rfl | hy
          exacts [absurd hyh.posix nofun, hv.posix x hx y hy k k' t t' b hne hxh hyh]
      · exact List.forall_mem_cons.2 ⟨Nat.lt_succ_self _, hI'.lt i⟩

/-- Every step keeps the invariant. -/
theorem Inv.act {a : LockAct I} (hI : s.Inv) (h : s.act a = some (s', e)) :
    s'.Inv ∧ Acted s a s' := by
  have hsame : s.Inv ∧ Acted s a s := ⟨hI, .stays (stays_of_eq rfl fun _ hw => hw)⟩
  have hdelete : ∀ i p, (s.deleteLocks i p).Inv ∧ Acted s a (s.deleteLocks i p) := fun i p =>
    (hI.deleteLocks i p).imp id .stays
  cases a with
  | setlk64 i owner pid file fPos iSize q sleep mem =>
    change s.fcntlSetlk64 i owner pid file fPos iSize q sleep mem = _ at h
    unfold fcntlSetlk64 at h
    split at h
    · cases h
      exact hsame
    next start last hok =>
      obtain ⟨hstart, hrange, hlast⟩ := flock64ToPosixLock_ok hok
      refine hI.requested (fun _ => ⟨rfl, hstart, hrange, hlast⟩) rfl ?_ (FileLocks.requested h)
      rintro rfl
      rfl
  | mandatoryArea i owner pid file write offset count sleep =>
    change s.locksMandatoryArea i owner pid file write offset count sleep = _ at h
    unfold locksMandatoryArea at h
    have hr := FileLocks.requested h
    refine hI.requested (fun haccess => ?_) rfl ?_ hr
    · cases haccess
    · rintro rfl
      rfl
  | flockDrop i file type =>
    cases h
    unfold FileLocks.flockDrop
    split
    · exact hsame
    · split
      exacts [hsame, hdelete i _]
  | flockTake i owner pid file type sleep =>
    have heq : (s.flockTake i owner pid file type sleep).1 = s' :=
      congrArg Prod.fst (Option.some.inj h)
    exact heq ▸ hI.flockTake i owner pid file type sleep
  | removePosix i owner =>
    cases h
    exact hdelete i _
  | removeFlock i file =>
    obtain ⟨s₁, hs₁, heq⟩ := Option.map_eq_some_iff.1 h
    cases heq
    unfold locksRemoveFlock at hs₁
    split at hs₁
    · cases hs₁
    · cases hs₁
      exact hdelete i _
  | deleteBlock id =>
    cases h
    refine ⟨⟨hI.valid, hI.lt, fun w hw => hI.waits w (List.mem_of_mem_filter hw)⟩, .stays ?_⟩
    exact stays_of_eq rfl fun w hw => List.mem_of_mem_filter hw

theorem inv_of_exec {as : List (LockAct I)} (h : (machine I).exec (machine I).init as = some s) :
    s.Inv := by
  refine (Machine.run_anyStep_iff.2 h).invariant (fun _ _ _ hI _ hst => ?_) inv_init
  obtain ⟨r, hr, rfl⟩ := Option.map_eq_some_iff.1 hst
  exact (hI.act (e := r.2) hr).1

/-- **Locks exclude each other.**  Whatever the order of the calls, no two `flock` locks on a file
stand against each other, and when one owner holds a byte of a file with a POSIX lock, nobody else
holds it with a write lock. -/
theorem no_conflict {as : List (LockAct I)} (h : (machine I).exec (machine I).init as = some s)
    (i : I) :
    (∀ x ∈ s.iFlock i, ∀ y ∈ s.iFlock i, x.flFlags = .flock → ¬ flockLocksConflict x y) ∧
      ∀ x ∈ s.iFlock i, ∀ y ∈ s.iFlock i, ∀ b, x.key ≠ y.key → x.Holds x.key x.flType b →
        y.Holds y.key y.flType b → x.flType = .rdlck ∧ y.flType = .rdlck := by
  have hv := (inv_of_exec h).valid i
  refine ⟨hv.flocks, fun x hx y hy b hne hxh hyh => ?_⟩
  have hxw := hv.posix x hx y hy _ _ _ _ b hne hxh hyh
  have hyw := hv.posix y hy x hx _ _ _ _ b hne.symm hyh hxh
  have hxu := hv.type x hx
  have hyu := hv.type y hy
  constructor
  · cases hx : x.flType <;> simp_all
  · cases hy : y.flType <;> simp_all

/-- **A request waits only for a lock that stands against it.**  So whatever gives it a way has
taken it out of the list of its lock and woken it. -/
theorem waiter_blocked {as : List (LockAct I)} (h : (machine I).exec (machine I).init as = some s) :
    ∀ w ∈ s.blockedList, ∃ x ∈ s.iFlock w.inode, x.id = w.flNext ∧
      (posixLocksConflict w.lock x ∨ flockLocksConflict w.lock x) :=
  (inv_of_exec h).waits

/-- Two readers, one of which wants to write to a part; and the other one gives up a part. -/
def oneWaits : List (LockAct Unit) :=
  [.setlk64 () 1 1 1 0 0 ⟨.rdlck, 0, 0, 10⟩ false true,
    .setlk64 () 2 2 2 0 0 ⟨.rdlck, 0, 0, 0⟩ false true,
    .setlk64 () 2 2 2 0 0 ⟨.wrlck, 0, 2, 3⟩ true true,
    .setlk64 () 1 1 1 0 0 ⟨.unlck, 0, 8, 0⟩ false true,
    .setlk64 () 2 2 2 0 0 ⟨.wrlck, 0, 2, 3⟩ true true]

theorem no_conflict_oneWaits :
    ∃ s : FileLocks Unit, (machine Unit).exec (machine Unit).init oneWaits = some s ∧
      (∀ x ∈ s.iFlock (), ∀ y ∈ s.iFlock (), x.flFlags = .flock → ¬ flockLocksConflict x y) ∧
      ∀ x ∈ s.iFlock (), ∀ y ∈ s.iFlock (), ∀ b, x.key ≠ y.key → x.Holds x.key x.flType b →
        y.Holds y.key y.flType b → x.flType = .rdlck ∧ y.flType = .rdlck := by
  have hrun := Option.eq_some_of_isSome
    (o := (machine Unit).exec (machine Unit).init oneWaits) rfl
  exact ⟨_, hrun, no_conflict hrun ()⟩

theorem waiter_blocked_oneWaits :
    ∃ s : FileLocks Unit, (machine Unit).exec (machine Unit).init oneWaits = some s ∧
      s.blockedList.length = 1 ∧
      ∀ w ∈ s.blockedList, ∃ x ∈ s.iFlock w.inode, x.id = w.flNext ∧
        (posixLocksConflict w.lock x ∨ flockLocksConflict w.lock x) := by
  have hrun := Option.eq_some_of_isSome
    (o := (machine Unit).exec (machine Unit).init oneWaits) rfl
  exact ⟨_, hrun, rfl, waiter_blocked hrun⟩

end FileLocks

end LxApi32
