import Mathlib.Data.Finset.Basic
import Mathlib.Data.List.Nodup
import Mathlib.Logic.Function.Basic

/-!
# Lists that share their members out

Things are linked into lists, each into one list at most, and `place` says into which one.

* `Places.Linked.erase`, `Places.Linked.insert`, `Places.Linked.push`, `Places.Linked.pop` : one
  thing is taken out, or put into a list.
* `Places.Linked.splice` : one list goes over to another one.
* `Places.Marked` : a bit of each thing says whether it is in a list.  `Marked.set`, `Marked.clear`,
  `Marked.move` and `Marked.splice` : who has set the bit may link the thing.
-/

namespace LxApi32

namespace Places

variable {T P : Type*} {place : T → Option P} {list : P → List T} {t : T} {p q : P}

/-- The lists have each thing where `place` says, and once. -/
structure Linked (place : T → Option P) (list : P → List T) : Prop where
  mem_iff : ∀ p t, t ∈ list p ↔ place t = some p
  nodup : ∀ p, (list p).Nodup

theorem Linked.not_mem (h : Linked place list) (ht : place t = none) (p : P) : t ∉ list p := by
  intro hmem
  rw [h.mem_iff, ht] at hmem
  cases hmem

section

variable [DecidableEq T]

/-- **Out of its list**, wherever that is. -/
theorem Linked.erase (h : Linked place list) (t : T) :
    Linked (Function.update place t none) fun p => (list p).erase t where
  mem_iff p u := by
    rw [(h.nodup p).mem_erase_iff, h.mem_iff]
    rcases eq_or_ne u t with rfl | hne
    · simp
    · simp [hne]
  nodup p := (h.nodup p).erase t

variable [DecidableEq P]

/-- **Into a list.** -/
theorem Linked.insert (h : Linked place list) (ht : place t = none) {l : List T} (hl : l.Nodup)
    (hmem : ∀ u, u ∈ l ↔ u = t ∨ u ∈ list q) :
    Linked (Function.update place t (some q)) (Function.update list q l) := by
  refine ⟨fun p u => ?_, fun p => ?_⟩ <;> rcases eq_or_ne p q with rfl | hpq
  · rw [Function.update_self, hmem, h.mem_iff]
    rcases eq_or_ne u t with rfl | hne
    · simp
    · simp [hne]
  · rw [Function.update_of_ne hpq, h.mem_iff]
    rcases eq_or_ne u t with rfl | hne
    · simp [ht, Ne.symm hpq]
    · rw [Function.update_of_ne hne]
  · rw [Function.update_self]
    exact hl
  · rw [Function.update_of_ne hpq]
    exact h.nodup p

/-- To the end of a list. -/
theorem Linked.push (h : Linked place list) (ht : place t = none) (q : P) :
    Linked (Function.update place t (some q)) (Function.update list q (list q ++ [t])) := by
  refine h.insert ht ?_ fun u => by rw [List.mem_append, List.mem_singleton, or_comm]
  exact List.Nodup.append (h.nodup q) (List.nodup_singleton t)
    (List.disjoint_singleton.2 (h.not_mem ht q))

/-- The first of a list. -/
theorem Linked.pop (h : Linked place list) {l : List T} (hlist : list q = t :: l) :
    Linked (Function.update place t none) (Function.update list q l) := by
  have hplace : place t = some q := by
    rw [← h.mem_iff, hlist]
    exact List.mem_cons_self
  have herase : (fun p => (list p).erase t) = Function.update list q l := by
    funext p
    rcases eq_or_ne p q with rfl | hpq
    · rw [Function.update_self, hlist, List.erase_cons_head]
    · rw [Function.update_of_ne hpq, List.erase_of_not_mem]
      rw [h.mem_iff, hplace]
      exact fun heq => hpq (Option.some.inj heq).symm
  exact herase ▸ h.erase t

end

/-- **One list goes over** to an empty one. -/
theorem Linked.splice [DecidableEq P] (h : Linked place list) (hne : p ≠ q) (hq : list q = []) :
    Linked (fun t => if place t = some p then some q else place t)
      (Function.update (Function.update list q (list p)) p []) := by
  have hnone : ∀ t, place t ≠ some q := fun t ht => by
    rw [← h.mem_iff, hq] at ht
    cases ht
  refine ⟨fun r t => ?_, fun r => ?_⟩ <;> rcases eq_or_ne r p with rfl | hrp
  · rw [Function.update_self]
    refine iff_of_false List.not_mem_nil ?_
    split
    next => exact fun heq => hne (Option.some.inj heq).symm
    next ht => exact ht
  · rw [Function.update_of_ne hrp]
    rcases eq_or_ne r q with rfl | hrq
    · rw [Function.update_self, h.mem_iff]
      simp [hnone t]
    · rw [Function.update_of_ne hrq, h.mem_iff]
      split
      next ht => simp [ht, Ne.symm hrp, Ne.symm hrq]
      next => rfl
  · rw [Function.update_self]
    exact List.nodup_nil
  · rw [Function.update_of_ne hrp]
    rcases eq_or_ne r q with rfl | hrq
    · rw [Function.update_self]
      exact h.nodup p
    · rw [Function.update_of_ne hrq]
      exact h.nodup r

/-- The bit of a thing is set exactly if it is in one of the lists, and it is in one only. -/
def Marked (bits : Finset T) (list : P → List T) : Prop :=
  ∃ place : T → Option P, Linked place list ∧ ∀ t, t ∈ bits ↔ place t ≠ none

section

variable {bits : Finset T} {list' : P → List T}

theorem Marked.mem (h : Marked bits list) (ht : t ∈ list p) : t ∈ bits := by
  obtain ⟨place, hlink, hbits⟩ := h
  rw [hbits, (hlink.mem_iff p t).1 ht]
  nofun

theorem Marked.exists_mem (h : Marked bits list) (ht : t ∈ bits) : ∃ p, t ∈ list p := by
  obtain ⟨place, hlink, hbits⟩ := h
  obtain ⟨p, hp⟩ := Option.ne_none_iff_exists'.1 ((hbits t).1 ht)
  exact ⟨p, (hlink.mem_iff p t).2 hp⟩

theorem Marked.unique (h : Marked bits list) (hp : t ∈ list p) (hq : t ∈ list q) : p = q := by
  obtain ⟨place, hlink, -⟩ := h
  rw [hlink.mem_iff] at hp hq
  exact Option.some.inj (hp.symm.trans hq)

theorem Marked.congr (h : Marked bits list) (hlist : ∀ p, list' p = list p) : Marked bits list' :=
  funext hlist ▸ h

variable [DecidableEq T] [DecidableEq P]

/-- **The bit is set**, and the thing put into a list. -/
theorem Marked.set (h : Marked bits list) (ht : t ∉ bits) (hq : list' q = t :: list q)
    (hr : ∀ r, r ≠ q → list' r = list r) : Marked (insert t bits) list' := by
  obtain ⟨place, hlink, hbits⟩ := h
  have hnone : place t = none := not_not.1 ((hbits t).not.1 ht)
  have hlist : list' = Function.update list q (t :: list q) := Function.eq_update_iff.2 ⟨hq, hr⟩
  have hnodup : (t :: list q).Nodup := List.nodup_cons.2 ⟨hlink.not_mem hnone q, hlink.nodup q⟩
  refine ⟨_, hlist ▸ hlink.insert hnone hnodup fun u => List.mem_cons, fun u => ?_⟩
  rcases eq_or_ne u t with rfl | hne
  · simp
  · rw [Finset.mem_insert, Function.update_of_ne hne, hbits, or_iff_right hne]

omit [DecidableEq P] in
/-- **The bit is cleared**, and the thing taken out of its list. -/
theorem Marked.clear (h : Marked bits list) (ht : t ∈ list p) (hp : list' p = (list p).erase t)
    (hr : ∀ r, r ≠ p → list' r = list r) : Marked (bits.erase t) list' := by
  obtain ⟨place, hlink, hbits⟩ := h
  have hlist : list' = fun r => (list r).erase t := by
    funext r
    rcases eq_or_ne r p with rfl | hne
    · exact hp
    · rw [hr r hne, List.erase_of_not_mem]
      rw [hlink.mem_iff, (hlink.mem_iff p t).1 ht]
      exact fun heq => hne (Option.some.inj heq).symm
  refine ⟨_, hlist ▸ hlink.erase t, fun u => ?_⟩
  rcases eq_or_ne u t with rfl | hne
  · simp
  · rw [Finset.mem_erase, Function.update_of_ne hne, hbits, and_iff_right hne]

/-- From one list to another. -/
theorem Marked.move (h : Marked bits list) (ht : t ∈ list p) (hpq : p ≠ q)
    (hp : list' p = (list p).erase t) (hq : list' q = t :: list q)
    (hr : ∀ r, r ≠ p → r ≠ q → list' r = list r) : Marked bits list' := by
  have hout : Marked (bits.erase t) (Function.update list p ((list p).erase t)) :=
    h.clear ht (Function.update_self ..) fun r hne => Function.update_of_ne hne ..
  have hin : Marked (insert t (bits.erase t)) list' := by
    refine hout.set (q := q) (Finset.notMem_erase t bits) ?_ fun r hne => ?_
    · rw [Function.update_of_ne hpq.symm, hq]
    · rcases eq_or_ne r p with rfl | hrp
      · rw [Function.update_self, hp]
      · rw [Function.update_of_ne hrp, hr r hrp hne]
  rwa [Finset.insert_erase (h.mem ht)] at hin

omit [DecidableEq T] in
/-- A list goes over to an empty one. -/
theorem Marked.splice (h : Marked bits list) (hpq : p ≠ q) (hempty : list q = [])
    (hp : list' p = []) (hq : list' q = list p) (hr : ∀ r, r ≠ p → r ≠ q → list' r = list r) :
    Marked bits list' := by
  obtain ⟨place, hlink, hbits⟩ := h
  have hlist : list' = Function.update (Function.update list q (list p)) p [] := by
    refine Function.eq_update_iff.2 ⟨hp, fun r hrp => ?_⟩
    rcases eq_or_ne r q with rfl | hrq
    · rw [Function.update_self, hq]
    · rw [Function.update_of_ne hrq, hr r hrp hrq]
  refine ⟨_, hlist ▸ hlink.splice hpq hempty, fun u => ?_⟩
  rw [hbits]
  split
  next heq => simp [heq]
  next => rfl

end

end Places

end LxApi32
