import Mathlib.Data.List.Basic
import Mathlib.Data.List.Nodup
import Mathlib.Data.List.Perm.Basic

/-!
# The first entry of a kind

Lists are often searched for the first entry with some property, and then that entry is changed or
taken out.

* `modifyFirst p f` : the list with the first entry that satisfies `p` changed by `f`.
* `FirstMatch.eq_modifyFirst` : a function that goes through the list in this way is the change.
* `FirstMatch.exists_append` : where the entry is that a search finds, and what becomes of the list.
* `FirstMatch.find?_key_iff`, `FirstMatch.eraseP_key_eq_filter`, `FirstMatch.mem_eraseP_key_iff` :
  what is found and what is left when the entries have different keys.
* `FirstMatch.map_modifyFirst`, `FirstMatch.find?_modifyFirst`, `FirstMatch.mem_modifyFirst`,
  `FirstMatch.perm_modifyFirst` : what a change leaves, and what it brings.
-/

namespace LxApi32

section

variable {α β : Type*} {p : α → Prop} [DecidablePred p] {f : α → α} {l : List α} {a b : α}

/-- The first entry that satisfies `p` is changed by `f`. -/
def modifyFirst (p : α → Prop) [DecidablePred p] (f : α → α) (l : List α) : List α :=
  l.replaceF fun a => if p a then some (f a) else none

namespace FirstMatch

theorem modifyFirst_cons :
    modifyFirst p f (a :: l) = if p a then f a :: l else a :: modifyFirst p f l := by
  unfold modifyFirst
  split_ifs with h
  · exact List.replaceF_cons_of_some _ (if_pos h)
  · exact List.replaceF_cons_of_none _ (if_neg h)

/-- A function that goes through the list in this way is the change. -/
theorem eq_modifyFirst {g : List α → List α} (hnil : g [] = [])
    (hcons : ∀ a l, g (a :: l) = if p a then f a :: l else a :: g l) : g l = modifyFirst p f l := by
  induction l with
  | nil => exact hnil
  | cons a l ih => rw [hcons, modifyFirst_cons, ih]

theorem modifyFirst_of_forall (h : ∀ a ∈ l, ¬ p a) : modifyFirst p f l = l :=
  List.replaceF_of_forall_none fun a ha => if_neg (h a ha)

@[simp]
theorem length_modifyFirst : (modifyFirst p f l).length = l.length := List.length_replaceF

/-- What the change leaves as it is in the entry, it leaves in the list. -/
theorem map_modifyFirst {g : α → β} (h : ∀ a, g (f a) = g a) :
    (modifyFirst p f l).map g = l.map g := by
  induction l with
  | nil => rfl
  | cons a l ih =>
    rw [modifyFirst_cons]
    split_ifs
    · rw [List.map_cons, h, List.map_cons]
    · rw [List.map_cons, ih, List.map_cons]

/-- The entry that a search finds has others in front and behind, which a change and a removal
leave as they are. -/
theorem exists_append (h : l.find? (fun a => p a) = some a) : p a ∧ ∃ front back,
    l = front ++ a :: back ∧ (∀ f, modifyFirst p f l = front ++ f a :: back) ∧
      l.eraseP (fun a => p a) = front ++ back := by
  induction l with
  | nil => cases h
  | cons b l ih =>
    by_cases hb : p b
    · rw [List.find?_cons_of_pos (by simpa using hb)] at h
      cases h
      exact ⟨hb, [], l, rfl, fun f => by rw [modifyFirst_cons, if_pos hb]; rfl,
        List.eraseP_cons_of_pos (by simpa using hb)⟩
    · rw [List.find?_cons_of_neg (by simpa using hb)] at h
      obtain ⟨ha, front, back, rfl, hmodify, herase⟩ := ih h
      refine ⟨ha, b :: front, back, rfl, fun f => ?_, ?_⟩
      · rw [modifyFirst_cons, if_neg hb, hmodify]
        rfl
      · rw [List.eraseP_cons_of_neg (by simpa using hb), herase]
        rfl

/-- The changed entry is found again if it still satisfies `p`. -/
theorem find?_modifyFirst (h : l.find? (fun a => p a) = some a) (hf : p (f a)) :
    (modifyFirst p f l).find? (fun a => p a) = some (f a) := by
  induction l with
  | nil => cases h
  | cons b l ih =>
    by_cases hb : p b
    · rw [List.find?_cons_of_pos (by simpa using hb)] at h
      cases h
      rw [modifyFirst_cons, if_pos hb, List.find?_cons_of_pos (by simpa using hf)]
    · rw [List.find?_cons_of_neg (by simpa using hb)] at h
      rw [modifyFirst_cons, if_neg hb, List.find?_cons_of_neg (by simpa using hb), ih h]

/-- An entry is an old one or the changed one. -/
theorem mem_modifyFirst (h : b ∈ modifyFirst p f l) :
    b ∈ l ∨ ∃ a, l.find? (fun a => p a) = some a ∧ b = f a := by
  cases hfind : l.find? fun a => p a with
  | none =>
    rw [modifyFirst_of_forall (by simpa using hfind)] at h
    exact .inl h
  | some a =>
    obtain ⟨-, front, back, rfl, hmodify, -⟩ := exists_append hfind
    rw [hmodify, List.mem_append, List.mem_cons] at h
    obtain h | rfl | h := h
    · exact .inl (List.mem_append_left _ h)
    · exact .inr ⟨a, rfl, rfl⟩
    · exact .inl (List.mem_append_right _ (List.mem_cons_of_mem _ h))

/-- The change exchanges one entry. -/
theorem perm_modifyFirst (h : l.find? (fun a => p a) = some a) :
    (a :: modifyFirst p f l).Perm (f a :: l) := by
  obtain ⟨-, front, back, rfl, hmodify, -⟩ := exists_append h
  rw [hmodify]
  exact (List.perm_middle.cons a).trans ((List.Perm.swap ..).trans (List.perm_middle.symm.cons _))

/-! ### Keys -/

section

variable {κ : Type*} [DecidableEq κ] {key : α → κ} {k : κ}

/-- If the keys are different, a search for a key finds the entry that has it. -/
theorem find?_key_iff (h : (l.map key).Nodup) :
    l.find? (fun a => key a = k) = some a ↔ a ∈ l ∧ key a = k := by
  constructor
  · intro hfind
    exact ⟨List.mem_of_find?_eq_some hfind, by simpa using List.find?_some hfind⟩
  · rintro ⟨ha, rfl⟩
    cases hfind : l.find? fun b => key b = key a with
    | none => exact absurd (decide_eq_true rfl) (List.find?_eq_none.1 hfind a ha)
    | some b =>
      have hkey : key b = key a := by simpa using List.find?_some hfind
      rw [List.inj_on_of_nodup_map h (List.mem_of_find?_eq_some hfind) ha hkey]

/-- If the keys are different, a removal by a key leaves all entries with other keys, in order. -/
theorem eraseP_key_eq_filter (h : (l.map key).Nodup) :
    l.eraseP (fun a => key a = k) = l.filter fun a => key a ≠ k := by
  induction l with
  | nil => rfl
  | cons a l ih =>
    obtain ⟨ha, hl⟩ := List.nodup_cons.1 h
    by_cases hk : key a = k
    · subst hk
      have hne : ∀ b ∈ l, key b ≠ key a := fun b hb heq => ha (List.mem_map.2 ⟨b, hb, heq⟩)
      rw [List.eraseP_cons_of_pos (by simp), List.filter_cons_of_neg (by simp),
        List.filter_eq_self.2 (by simpa using hne)]
    · rw [List.eraseP_cons_of_neg (by simpa using hk), List.filter_cons_of_pos (by simpa using hk),
        ih hl]

/-- If the keys are different, a removal by a key takes out the entry that has it. -/
theorem mem_eraseP_key_iff (h : (l.map key).Nodup) :
    a ∈ l.eraseP (fun a => key a = k) ↔ a ∈ l ∧ key a ≠ k := by
  rw [eraseP_key_eq_filter h, List.mem_filter, decide_eq_true_iff]

end

end FirstMatch

end

end LxApi32
