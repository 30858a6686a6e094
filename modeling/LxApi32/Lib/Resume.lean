import Mathlib.Data.List.Basic
import Mathlib.Data.List.Nodup

/-!
# Going through a list by keys

The entries of a list that satisfy a predicate are asked for one after the other, and each request
says with a key where the last one ended: behind the first entry with this key.

* `Resume.nextFrom` : a request.
* `Resume.enum` : the answers of a sequence of requests, up to the first without an entry.
* `Resume.enum_eq_selected_iff` : the answers are all the entries if and only if these have
  different keys.
-/

namespace LxApi32

namespace Resume

variable {α κ : Type*} {key : α → κ} {p : κ → Bool} {l front back L : List α}
  {a b : α} {k : Option κ} {m n : ℕ}

/-- The entries that satisfy `p`. -/
def selected (key : α → κ) (p : κ → Bool) (l : List α) : List α := l.filter fun a => p (key a)

/-- The first selected entry, and those behind it. -/
theorem selected_of_find? (h : l.find? (fun a => p (key a)) = some b) :
    p (key b) = true ∧ ∃ front back, l = front ++ b :: back ∧
      selected key p l = b :: selected key p back := by
  obtain ⟨hb, front, back, rfl, hfront⟩ := List.find?_eq_some_iff_append.1 h
  have hnil : front.filter (fun a => p (key a)) = [] :=
    List.filter_eq_nil_iff.2 fun a ha => by simpa using hfront a ha
  refine ⟨hb, front, back, rfl, ?_⟩
  rw [selected, List.filter_append, hnil, List.nil_append,
    List.filter_cons_of_pos (by simpa using hb), selected]

theorem selected_of_find?_eq_none (h : l.find? (fun a => p (key a)) = none) :
    selected key p l = [] :=
  List.filter_eq_nil_iff.2 (List.find?_eq_none.1 h)

variable [DecidableEq κ]

/-- The first entry behind the first one with the key `k`, that satisfies `p`. -/
def nextFrom (key : α → κ) (p : κ → Bool) (l : List α) : Option κ → Option α
  | none => l.find? fun a => p (key a)
  | some k => (l.dropWhile fun a => key a ≠ k).tail.find? fun a => p (key a)

theorem nextFrom_cons_none (a : α) (l : List α) :
    nextFrom key p (a :: l) none = if p (key a) then some a else nextFrom key p l none := by
  by_cases ha : p (key a) = true <;> simp [nextFrom, ha]

theorem nextFrom_cons_some (a : α) (l : List α) (c : κ) :
    nextFrom key p (a :: l) (some c) =
      if key a = c then nextFrom key p l none else nextFrom key p l (some c) := by
  by_cases ha : key a = c <;> simp [nextFrom, ha]

/-- The answers of at most `n` requests. -/
def enum (key : α → κ) (p : κ → Bool) (l : List α) : ℕ → Option κ → Option (List α)
  | 0, _ => none
  | n + 1, k =>
    match nextFrom key p l k with
    | none => some []
    | some a => (enum key p l n (some (key a))).map (a :: ·)

/-- Two sequences of requests that both come to an end have the same answers. -/
theorem enum_unique (hn : enum key p l n k = some front) (hm : enum key p l m k = some back) :
    front = back := by
  induction n generalizing m k front back with
  | zero => simp [enum] at hn
  | succ n ih =>
    cases m with
    | zero => simp [enum] at hm
    | succ m =>
      rw [enum] at hn hm
      cases hnext : nextFrom key p l k with
      | none =>
        simp only [hnext, Option.some.injEq] at hn hm
        rw [← hn, ← hm]
      | some a =>
        simp only [hnext] at hn hm
        obtain ⟨front, hfront, rfl⟩ := Option.map_eq_some_iff.1 hn
        obtain ⟨back, hback, rfl⟩ := Option.map_eq_some_iff.1 hm
        rw [ih hfront hback]

/-- The answers behind one of the answers are those of the requests from its key on. -/
theorem exists_enum_of_append (h : enum key p l n k = some (front ++ b :: back)) :
    ∃ m, enum key p l m (some (key b)) = some back := by
  induction front generalizing n k with
  | nil =>
    cases n with
    | zero => simp [enum] at h
    | succ n =>
      rw [enum] at h
      cases hnext : nextFrom key p l k with
      | none => simp [hnext] at h
      | some a =>
        simp only [hnext] at h
        obtain ⟨L, hL, heq⟩ := Option.map_eq_some_iff.1 h
        obtain ⟨rfl, rfl⟩ := List.cons.inj heq
        exact ⟨n, hL⟩
  | cons c front ih =>
    cases n with
    | zero => simp [enum] at h
    | succ n =>
      rw [enum] at h
      cases hnext : nextFrom key p l k with
      | none => simp [hnext] at h
      | some a =>
        simp only [hnext] at h
        obtain ⟨L, hL, heq⟩ := Option.map_eq_some_iff.1 h
        obtain ⟨rfl, rfl⟩ := List.cons.inj heq
        exact ih hL

/-- Requests that come to an end have answers with different keys. -/
theorem nodup_of_enum (h : enum key p l n k = some L) : (L.map key).Nodup := by
  induction L generalizing n k with
  | nil => exact List.nodup_nil
  | cons a L ih =>
    have hfirst : enum key p l n k = some ([] ++ a :: L) := h
    obtain ⟨m, hm⟩ := exists_enum_of_append hfirst
    rw [List.map_cons, List.nodup_cons]
    refine ⟨fun hmem => ?_, ih hm⟩
    obtain ⟨b, hb, hkey⟩ := List.mem_map.1 hmem
    obtain ⟨front, back, rfl⟩ := List.append_of_mem hb
    obtain ⟨i, hi⟩ := exists_enum_of_append hm
    rw [hkey] at hi
    have hlen := congrArg List.length (enum_unique hm hi)
    rw [List.length_append, List.length_cons] at hlen
    omega

/-- The list behind an entry with a key of its own among the selected ones. -/
theorem dropWhile_key (hnodup : ((selected key p (front ++ a :: back)).map key).Nodup)
    (ha : p (key a) = true) :
    (front ++ a :: back).dropWhile (fun b => key b ≠ key a) = a :: back := by
  have hne : ∀ b ∈ front, decide (key b ≠ key a) = true := fun b hb => by
    rw [decide_eq_true_iff]
    intro hkey
    have hmem : b ∈ selected key p front := List.mem_filter.2 ⟨hb, by rw [hkey]; exact ha⟩
    rw [selected, List.filter_append, List.filter_cons_of_pos (by simpa using ha),
      List.map_append, List.map_cons, List.nodup_append] at hnodup
    exact hnodup.2.2 _ (List.mem_map_of_mem hmem) _ List.mem_cons_self hkey
  rw [List.dropWhile_append_of_pos hne, List.dropWhile_cons_of_neg (by simp)]

/-- The requests from the key of a selected entry on. -/
theorem enum_key (n : ℕ) (front back : List α) (a : α)
    (hnodup : ((selected key p (front ++ a :: back)).map key).Nodup) (ha : p (key a) = true)
    (hn : (selected key p back).length < n) :
    enum key p (front ++ a :: back) n (some (key a)) = some (selected key p back) := by
  induction n generalizing front back a with
  | zero => omega
  | succ n ih =>
    rw [enum, nextFrom, dropWhile_key hnodup ha, List.tail_cons]
    cases hfind : back.find? fun a => p (key a) with
    | none => rw [selected_of_find?_eq_none hfind]
    | some b =>
      obtain ⟨hb, mid, back', rfl, hsel⟩ := selected_of_find? hfind
      have hassoc : front ++ a :: (mid ++ b :: back') = (front ++ a :: mid) ++ b :: back' := by
        simp
      rw [hsel, List.length_cons] at hn
      rw [hassoc] at hnodup ⊢
      simp only [ih (front ++ a :: mid) back' b hnodup hb (by omega), hsel, Option.map_some]

/-- The answers are the selected entries if and only if these have different keys. -/
theorem enum_eq_selected_iff (l : List α) :
    (∃ n, enum key p l n none = some (selected key p l)) ↔ ((selected key p l).map key).Nodup := by
  refine ⟨fun ⟨n, h⟩ => nodup_of_enum h, fun hnodup => ?_⟩
  cases hfind : l.find? fun a => p (key a) with
  | none =>
    refine ⟨1, ?_⟩
    simp only [enum, nextFrom, hfind]
    rw [selected_of_find?_eq_none hfind]
  | some b =>
    obtain ⟨hb, front, back, rfl, hsel⟩ := selected_of_find? hfind
    refine ⟨(selected key p back).length + 1 + 1, ?_⟩
    have hrest := enum_key ((selected key p back).length + 1) front back b hnodup hb
      (Nat.lt_succ_self _)
    rw [enum, nextFrom, hfind]
    simp only [hrest, hsel, Option.map_some]

end Resume

end LxApi32
