import Mathlib.Data.List.Basic
import Mathlib.Logic.Function.Basic
import Mathlib.Logic.Nontrivial.Defs

/-!
# Terminals

A screen of `R` lines with `C` columns, and a cursor on it.  What is written is stored at the
cursor, which moves on to the next column; behind the last column it goes to the beginning of the
next line, and below the last line the screen scrolls up.

## Main definitions

* `Cursor R C` : a place on the screen.
* `Terminal.Op` : carriage return, line feed, tab, and a cell that is stored.
* `Cursor.move` : where an operation leads from a place, and whether it scrolls.
* `Terminal.apply`, `Terminal.write` : one operation, and several.
* `Terminal.writeFixed` : several operations, each of which begins at the same place.
* `Cursor.Alike` : the operations act alike from there and from where the one before it has led.

## Main results

* `Terminal.apply_eq_iff` : an operation does the same from two places, on all screens, exactly if
  it moves alike from them.
* `Cursor.move_eq_iff` : when it does.
* `Terminal.writeFixed_eq_iff` : beginning at the same place is writing exactly if the operations
  act alike.
-/

namespace LxApi32

/-- A place on a screen. -/
structure Cursor (R C : ℕ) where
  /-- The line. -/
  row : Fin R
  /-- The column. -/
  col : Fin C
  deriving DecidableEq, Repr

/-- A screen with a cursor. -/
@[ext]
structure Terminal (R C : ℕ) (α : Type*) where
  /-- What is stored. -/
  cells : Fin R → Fin C → α
  /-- The cursor. -/
  cursor : Cursor R C

/-- What a terminal is told. -/
inductive Terminal.Op (α : Type*)
  /-- Carriage return. -/
  | ret
  /-- Line feed. -/
  | down
  /-- To the next multiple of the step. -/
  | tab
  /-- A cell is stored. -/
  | put (a : α)
  deriving DecidableEq, Repr

namespace Cursor

variable {R C : ℕ}

/-- The first column. -/
def first (p : Cursor R C) : Fin C := ⟨0, Nat.zero_lt_of_lt p.col.isLt⟩

/-- The next line; in the last one the screen scrolls. -/
def down (p : Cursor R C) : Cursor R C × Bool :=
  if h : p.row.val + 1 < R then ({ p with row := ⟨p.row.val + 1, h⟩ }, false) else (p, true)

/-- A column, or the beginning of the next line if there is no such column. -/
def goto (n : ℕ) (p : Cursor R C) : Cursor R C × Bool :=
  if h : n < C then ({ p with col := ⟨n, h⟩ }, false) else down { p with col := p.first }

/-- Where an operation leads, and whether the screen scrolls. -/
def move {α : Type*} (step : ℕ) (p : Cursor R C) : Terminal.Op α → Cursor R C × Bool
  | .ret => ({ p with col := p.first }, false)
  | .down => p.down
  | .tab => p.goto ((p.col.val / step + 1) * step)
  | .put _ => p.goto (p.col.val + 1)

/-- An operation acts alike from two places. -/
def ActsAlike {α : Type*} (step : ℕ) (p q : Cursor R C) : Terminal.Op α → Prop
  | .ret => p.row = q.row
  | .tab => p.row = q.row ∧ p.col.val / step = q.col.val / step
  | .down | .put _ => p = q

/-- The first operation acts alike from `p` and `q`, and every other one from `q` and the place to
which the one before it leads from `q`. -/
def Alike {α : Type*} (step : ℕ) (q : Cursor R C) : Cursor R C → List (Terminal.Op α) → Prop
  | _, [] => True
  | p, op :: ops => p.ActsAlike step q op ∧ Alike step q (q.move step op).1 ops

instance {α : Type*} (step : ℕ) (p q : Cursor R C) (op : Terminal.Op α) :
    Decidable (p.ActsAlike step q op) :=
  match op with
  | .ret => inferInstanceAs (Decidable (p.row = q.row))
  | .tab => inferInstanceAs (Decidable (p.row = q.row ∧ p.col.val / step = q.col.val / step))
  | .down | .put _ => inferInstanceAs (Decidable (p = q))

/-- Whether operations act alike can be evaluated. -/
def decAlike {α : Type*} (step : ℕ) (q : Cursor R C) :
    (p : Cursor R C) → (ops : List (Terminal.Op α)) → Decidable (Alike step q p ops)
  | _, [] => .isTrue trivial
  | p, op :: ops =>
    letI := decAlike step q (q.move step op).1 ops
    inferInstanceAs (Decidable (p.ActsAlike step q op ∧ Alike step q (q.move step op).1 ops))

instance {α : Type*} (step : ℕ) (p q : Cursor R C) (ops : List (Terminal.Op α)) :
    Decidable (Alike step q p ops) :=
  decAlike step q p ops

variable {p q : Cursor R C} {n m : ℕ}

theorem eq_of_val (hrow : p.row.val = q.row.val) (hcol : p.col.val = q.col.val) : p = q := by
  cases p
  cases q
  simp only [mk.injEq]
  exact ⟨Fin.ext hrow, Fin.ext hcol⟩

theorem down_of_lt (h : p.row.val + 1 < R) :
    p.down = ({ p with row := ⟨p.row.val + 1, h⟩ }, false) :=
  dif_pos h

theorem down_of_not_lt (h : ¬ p.row.val + 1 < R) : p.down = (p, true) := dif_neg h

theorem goto_of_lt (h : n < C) : p.goto n = ({ p with col := ⟨n, h⟩ }, false) := dif_pos h

theorem goto_of_not_lt (h : ¬ n < C) : p.goto n = down { p with col := p.first } := dif_neg h

@[simp]
theorem down_col (p : Cursor R C) : p.down.1.col = p.col := by
  unfold down
  split_ifs <;> rfl

/-- A screen that scrolls has its cursor in the last line. -/
theorem row_of_down_snd (h : p.down.2 = true) : p.down.1.row.val + 1 = R := by
  by_cases hp : p.row.val + 1 < R
  · rw [down_of_lt hp] at h
    cases h
  · rw [down_of_not_lt hp]
    have := p.row.isLt
    simp only
    omega

theorem down_inj (h : p.down = q.down) : p = q := by
  by_cases hp : p.row.val + 1 < R <;> by_cases hq : q.row.val + 1 < R
  · rw [down_of_lt hp, down_of_lt hq] at h
    simp only [Prod.mk.injEq, mk.injEq, Fin.mk.injEq, and_true] at h
    exact eq_of_val (Nat.succ.inj h.1) (congrArg Fin.val h.2)
  · rw [down_of_lt hp, down_of_not_lt hq] at h
    cases congrArg Prod.snd h
  · rw [down_of_not_lt hp, down_of_lt hq] at h
    cases congrArg Prod.snd h
  · rw [down_of_not_lt hp, down_of_not_lt hq] at h
    exact congrArg Prod.fst h

/-- Behind the last column a move ends in the first one, so that no other move ends there. -/
theorem goto_eq (h : p.goto n = q.goto m) (hn : 0 < n) (hm : 0 < m) :
    p.row = q.row ∧ (n = m ∨ (C ≤ n ∧ C ≤ m)) := by
  by_cases hp : n < C <;> by_cases hq : m < C
  · rw [goto_of_lt hp, goto_of_lt hq] at h
    simp only [Prod.mk.injEq, mk.injEq, Fin.mk.injEq, and_true] at h
    exact ⟨h.1, .inl h.2⟩
  · rw [goto_of_lt hp, goto_of_not_lt hq] at h
    have hcol := congrArg (fun r => r.1.col.val) h
    simp only [down_col, first] at hcol
    omega
  · rw [goto_of_not_lt hp, goto_of_lt hq] at h
    have hcol := congrArg (fun r => r.1.col.val) h
    simp only [down_col, first] at hcol
    omega
  · rw [goto_of_not_lt hp, goto_of_not_lt hq] at h
    have hrow := congrArg row (down_inj h)
    exact ⟨hrow, .inr ⟨Nat.le_of_not_lt hp, Nat.le_of_not_lt hq⟩⟩

/-- **When an operation moves alike** from two places. -/
theorem move_eq_iff {α : Type*} {step : ℕ} (hstep : 0 < step) (op : Terminal.Op α) :
    p.move step op = q.move step op ↔ p.ActsAlike step q op := by
  cases op with
  | ret =>
    simp only [move, Prod.mk.injEq, mk.injEq, and_true]
    exact and_iff_left rfl
  | down => exact ⟨down_inj, congrArg down⟩
  | put a =>
    refine ⟨fun h => ?_, congrArg (move step · (.put a))⟩
    obtain ⟨hrow, hcol⟩ := goto_eq h (Nat.succ_pos _) (Nat.succ_pos _)
    have hp := p.col.isLt
    have hq := q.col.isLt
    exact eq_of_val (congrArg Fin.val hrow) (by omega)
  | tab =>
    constructor
    · intro h
      obtain ⟨hrow, hcol⟩ := goto_eq h (Nat.mul_pos (Nat.succ_pos _) hstep)
        (Nat.mul_pos (Nat.succ_pos _) hstep)
      refine ⟨hrow, ?_⟩
      rcases hcol with heq | ⟨hp, hq⟩
      · exact Nat.succ.inj (Nat.eq_of_mul_eq_mul_right hstep heq)
      · -- both are in the last part of the line
        have hle (a b : Fin C) (hb : C ≤ (b.val / step + 1) * step) :
            a.val / step ≤ b.val / step :=
          Nat.le_of_lt_succ ((Nat.div_lt_iff_lt_mul hstep).2 (Nat.lt_of_lt_of_le a.isLt hb))
        exact Nat.le_antisymm (hle _ _ hq) (hle _ _ hp)
    · rintro ⟨hrow, hcol⟩
      simp only [move, hcol]
      unfold goto
      rw [hrow]
      rfl

/-- From a line that is not the last one, nothing scrolls. -/
theorem move_not_scrolls {α : Type*} {step : ℕ} (h : p.row.val + 1 < R) (op : Terminal.Op α) :
    (p.move step op).2 = false := by
  have hgoto (n : ℕ) : (p.goto n).2 = false := by
    by_cases hn : n < C
    · rw [goto_of_lt hn]
    · rw [goto_of_not_lt hn, down_of_lt (p := ⟨p.row, p.first⟩) h]
  cases op with
  | ret => rfl
  | down => exact congrArg Prod.snd (down_of_lt h)
  | tab => exact hgoto _
  | put a => exact hgoto _

/-- The last line is not left. -/
theorem move_row_of_last {α : Type*} {step : ℕ} (h : ¬ p.row.val + 1 < R) (op : Terminal.Op α) :
    (p.move step op).1.row = p.row := by
  have hgoto (n : ℕ) : (p.goto n).1.row = p.row := by
    by_cases hn : n < C
    · rw [goto_of_lt hn]
    · rw [goto_of_not_lt hn, down_of_not_lt (p := ⟨p.row, p.first⟩) h]
  cases op with
  | ret => rfl
  | down => exact congrArg (fun r => r.1.row) (down_of_not_lt h)
  | tab => exact hgoto _
  | put a => exact hgoto _

/-- From two places in one line, an operation that leads to the same place scrolls from both of them
or from none. -/
theorem move_eq_of_row {α : Type*} {step : ℕ} (hstep : 0 < step) {op : Terminal.Op α}
    (hrow : p.row = q.row) (h : (p.move step op).1 = (q.move step op).1) :
    p.move step op = q.move step op := by
  have hgoto (n m : ℕ) (hn : 0 < n) (hm : 0 < m) (h : (p.goto n).1 = (q.goto m).1) :
      p.goto n = q.goto m := by
    have hcol := congrArg (fun p => p.col.val) h
    by_cases hp : n < C <;> by_cases hq : m < C
    · rw [goto_of_lt hp, goto_of_lt hq] at h ⊢
      exact Prod.ext h rfl
    · rw [goto_of_lt hp, goto_of_not_lt hq] at hcol
      simp only [down_col, first] at hcol
      omega
    · rw [goto_of_not_lt hp, goto_of_lt hq] at hcol
      simp only [down_col, first] at hcol
      omega
    · rw [goto_of_not_lt hp, goto_of_not_lt hq, hrow]
      rfl
  cases op with
  | ret => exact Prod.ext h rfl
  | down =>
    have hcol : p.col = q.col := by
      have := congrArg col h
      simpa only [move, down_col] using this
    rw [eq_of_val (congrArg Fin.val hrow) (congrArg Fin.val hcol)]
  | tab =>
    exact hgoto _ _ (Nat.mul_pos (Nat.succ_pos _) hstep) (Nat.mul_pos (Nat.succ_pos _) hstep) h
  | put a => exact hgoto _ _ (Nat.succ_pos _) (Nat.succ_pos _) h

end Cursor

namespace Terminal

variable {R C : ℕ} {α : Type*}

/-- The lines move up, and the last one is filled with blanks. -/
def scroll (blank : α) (cells : Fin R → Fin C → α) : Fin R → Fin C → α :=
  fun r c => if h : r.val + 1 < R then cells ⟨r.val + 1, h⟩ c else blank

/-- A cell is stored. -/
def store (p : Cursor R C) (a : α) (cells : Fin R → Fin C → α) : Fin R → Fin C → α :=
  Function.update cells p.row (Function.update (cells p.row) p.col a)

/-- What an operation stores at a place. -/
def stored (cells : Fin R → Fin C → α) (p : Cursor R C) : Op α → Fin R → Fin C → α
  | .put a => store p a cells
  | _ => cells

/-- One operation. -/
def apply (blank : α) (step : ℕ) (t : Terminal R C α) (op : Op α) : Terminal R C α :=
  let cells := stored t.cells t.cursor op
  let (cursor, scrolls) := t.cursor.move step op
  ⟨if scrolls then scroll blank cells else cells, cursor⟩

/-- Several operations. -/
def write (blank : α) (step : ℕ) (t : Terminal R C α) (ops : List (Op α)) : Terminal R C α :=
  ops.foldl (apply blank step) t

/-- Several operations, each of which begins at `q`; the cursor is where the last one has led. -/
def writeFixed (blank : α) (step : ℕ) (q : Cursor R C) (t : Terminal R C α) (ops : List (Op α)) :
    Terminal R C α :=
  ops.foldl (fun t op => apply blank step ⟨t.cells, q⟩ op) t

variable {blank : α} {step : ℕ} {p q : Cursor R C} {op : Op α} {ops : List (Op α)}

@[simp]
theorem write_nil (t : Terminal R C α) : write blank step t [] = t := rfl

@[simp]
theorem write_cons (t : Terminal R C α) (ops : List (Op α)) :
    write blank step t (op :: ops) = write blank step (apply blank step t op) ops :=
  rfl

theorem apply_cells (t : Terminal R C α) (op : Op α) : (apply blank step t op).cells =
    if (t.cursor.move step op).2 then scroll blank (stored t.cells t.cursor op)
    else stored t.cells t.cursor op :=
  rfl

@[simp]
theorem apply_cursor (t : Terminal R C α) (op : Op α) :
    (apply blank step t op).cursor = (t.cursor.move step op).1 :=
  rfl

theorem store_apply (p : Cursor R C) (a : α) (cells : Fin R → Fin C → α) (r : Fin R) (c : Fin C) :
    store p a cells r c = if r = p.row ∧ c = p.col then a else cells r c := by
  unfold store
  by_cases hr : r = p.row
  · subst hr
    rw [Function.update_self]
    by_cases hc : c = p.col
    · subst hc
      simp
    · simp [hc]
  · simp [hr]

theorem scroll_last (cells : Fin R → Fin C → α) {r : Fin R} (h : ¬ r.val + 1 < R) (c : Fin C) :
    scroll blank cells r c = blank :=
  dif_neg h

theorem move_scrolls (h : (p.move step op).2 = true) : (p.move step op).1.row.val + 1 = R := by
  have hgoto (n : ℕ) (h : (p.goto n).2 = true) : (p.goto n).1.row.val + 1 = R := by
    by_cases hn : n < C
    · rw [Cursor.goto_of_lt hn] at h
      cases h
    · rw [Cursor.goto_of_not_lt hn] at h ⊢
      exact Cursor.row_of_down_snd h
  cases op with
  | ret => cases h
  | down => exact Cursor.row_of_down_snd h
  | tab => exact hgoto _ h
  | put a => exact hgoto _ h

/-- A place that the cursor leaves without scrolling is not where it is then. -/
theorem stored_of_not_scrolls (a : α) (h : (q.move step op).2 = false) :
    stored (fun _ _ => a) q op (q.move step op).1.row (q.move step op).1.col = a := by
  cases op with
  | ret | down | tab => rfl
  | put b =>
    have hput : q.move step (.put b) = q.goto (q.col.val + 1) := rfl
    rw [hput] at h ⊢
    unfold stored store
    dsimp only
    by_cases hcol : q.col.val + 1 < C
    · rw [Cursor.goto_of_lt hcol]
      have hne : (⟨q.col.val + 1, hcol⟩ : Fin C) ≠ q.col := fun heq =>
        Nat.succ_ne_self _ (congrArg Fin.val heq)
      simp [hne]
    · rw [Cursor.goto_of_not_lt hcol] at h ⊢
      by_cases hrow : q.row.val + 1 < R
      · rw [Cursor.down_of_lt (p := ⟨q.row, q.first⟩) hrow]
        have hne : (⟨q.row.val + 1, hrow⟩ : Fin R) ≠ q.row := fun heq =>
          Nat.succ_ne_self _ (congrArg Fin.val heq)
        simp [hne]
      · rw [Cursor.down_of_not_lt (p := ⟨q.row, q.first⟩) hrow] at h
        cases h

/-- A screen full of something else than blanks tells whether it has scrolled. -/
theorem not_scrolls_of_apply_eq {a : α} (ha : a ≠ blank)
    (heq : apply blank step ⟨fun _ _ => a, p⟩ op = apply blank step ⟨fun _ _ => a, q⟩ op)
    (hp : (p.move step op).2 = true) : (q.move step op).2 = true := by
  by_contra hq
  have hcursor : (p.move step op).1 = (q.move step op).1 := congrArg Terminal.cursor heq
  have hcells := congrArg Terminal.cells heq
  rw [apply_cells, apply_cells, if_pos hp, if_neg hq] at hcells
  have hlast := move_scrolls hp
  have hcell := congrFun (congrFun hcells (q.move step op).1.row) (q.move step op).1.col
  rw [stored_of_not_scrolls a (Bool.eq_false_iff.2 hq), ← hcursor,
    scroll_last _ (by omega)] at hcell
  exact ha hcell.symm

/-- **What an operation does** is the same from two places, on all screens, exactly if it moves
alike from them. -/
theorem apply_eq_iff [Nontrivial α] (hstep : 0 < step) :
    (∀ cells, apply blank step ⟨cells, p⟩ op = apply blank step ⟨cells, q⟩ op) ↔
      p.move step op = q.move step op := by
  constructor
  · intro h
    obtain ⟨a, ha⟩ := exists_ne blank
    have heq := h fun _ _ => a
    refine Prod.ext (congrArg Terminal.cursor heq) ?_
    rw [Bool.eq_iff_iff]
    exact ⟨not_scrolls_of_apply_eq ha heq, not_scrolls_of_apply_eq ha heq.symm⟩
  · intro h cells
    have hstored : stored cells p op = stored cells q op := by
      cases op with
      | ret | down | tab => rfl
      | put a => rw [(Cursor.move_eq_iff hstep _).1 h]
    simp only [apply, hstored, h]

/-! ### Beginning at the same place -/

@[simp]
theorem writeFixed_nil (t : Terminal R C α) : writeFixed blank step q t [] = t := rfl

@[simp]
theorem writeFixed_cons (t : Terminal R C α) (ops : List (Op α)) :
    writeFixed blank step q t (op :: ops) =
      writeFixed blank step q (apply blank step ⟨t.cells, q⟩ op) ops :=
  rfl

/-- Operations that act alike from `q` and the place reached. -/
theorem writeFixed_eq [Nontrivial α] (hstep : 0 < step) (h : Cursor.Alike step q p ops)
    (cells : Fin R → Fin C → α) :
    writeFixed blank step q ⟨cells, p⟩ ops = write blank step ⟨cells, p⟩ ops := by
  induction ops generalizing p cells with
  | nil => rfl
  | cons op ops ih =>
    have happly : apply blank step ⟨cells, q⟩ op = apply blank step ⟨cells, p⟩ op :=
      (apply_eq_iff hstep).2 ((Cursor.move_eq_iff hstep op).2 h.1).symm cells
    rw [writeFixed_cons, write_cons, ← happly]
    exact ih h.2 _

theorem alike_take (h : Cursor.Alike step q p ops) (n : ℕ) :
    Cursor.Alike step q p (ops.take n) := by
  induction ops generalizing p n with
  | nil => rw [List.take_nil]; trivial
  | cons op ops ih =>
    cases n with
    | zero => trivial
    | succ n => exact ⟨h.1, ih h.2 n⟩

/-- No blank is in the last line, and there is none as long as nothing scrolls. -/
def LastLineFull (blank : α) (cells : Fin R → Fin C → α) : Prop :=
  ∀ r c, ¬ r.val + 1 < R → cells r c ≠ blank

theorem stored_last {cells : Fin R → Fin C → α} (hq : q.row.val + 1 < R) (op : Op α) {r : Fin R}
    (hr : ¬ r.val + 1 < R) (c : Fin C) : stored cells q op r c = cells r c := by
  cases op with
  | ret | down | tab => rfl
  | put a =>
    have hne : ¬ (r = q.row ∧ c = q.col) := by
      rintro ⟨rfl, -⟩
      exact hr hq
    exact (store_apply q a cells r c).trans (if_neg hne)

theorem LastLineFull.apply {cells : Fin R → Fin C → α} (h : LastLineFull blank cells)
    (hq : q.row.val + 1 < R) (op : Op α) :
    LastLineFull blank (Terminal.apply blank step ⟨cells, q⟩ op).cells := by
  intro r c hr
  rw [apply_cells, Cursor.move_not_scrolls hq]
  exact (stored_last hq op hr c).trans_ne (h r c hr)

/-- What is the same after every operation is the same after the first one and every later one. -/
theorem writeFixed_eq_tail {cells : Fin R → Fin C → α}
    (h : ∀ n, writeFixed blank step q ⟨cells, p⟩ ((op :: ops).take n) =
      write blank step ⟨cells, p⟩ ((op :: ops).take n)) :
    apply blank step ⟨cells, q⟩ op = apply blank step ⟨cells, p⟩ op ∧
      ∀ n, writeFixed blank step q (apply blank step ⟨cells, q⟩ op) (ops.take n) =
        write blank step (apply blank step ⟨cells, q⟩ op) (ops.take n) := by
  have happly : apply blank step ⟨cells, q⟩ op = apply blank step ⟨cells, p⟩ op := h 1
  refine ⟨happly, fun n => ?_⟩
  have hn := h (n + 1)
  rwa [List.take_succ_cons, writeFixed_cons, write_cons, ← happly] at hn

/-- The place to which an operation leads is in the same line, if that is the last one. -/
theorem row_lt_or_move (q : Cursor R C) (step : ℕ) (op : Op α) :
    q.row.val + 1 < R ∨ (q.move step op).1.row = q.row := by
  by_cases hq : q.row.val + 1 < R
  · exact .inl hq
  · exact .inr (Cursor.move_row_of_last hq op)

/-- If the operations do the same on one screen with a full last line, they act alike. -/
theorem alike_of_writeFixed_eq (hstep : 0 < step) {cells : Fin R → Fin C → α}
    (hrow : q.row.val + 1 < R ∨ p.row = q.row)
    (hlast : q.row.val + 1 < R → LastLineFull blank cells)
    (h : ∀ n, writeFixed blank step q ⟨cells, p⟩ (ops.take n) =
      write blank step ⟨cells, p⟩ (ops.take n)) : Cursor.Alike step q p ops := by
  induction ops generalizing p cells with
  | nil => trivial
  | cons op ops ih =>
    obtain ⟨happly, htail⟩ := writeFixed_eq_tail h
    have hcursor : (p.move step op).1 = (q.move step op).1 := (congrArg cursor happly).symm
    have hmove : p.move step op = q.move step op := by
      by_cases hq : q.row.val + 1 < R
      · -- the last line would be blank
        refine Prod.ext hcursor ?_
        rw [Cursor.move_not_scrolls hq, Bool.eq_false_iff]
        intro hscrolls
        have hbelow := move_scrolls hscrolls
        have hcells := congrArg Terminal.cells happly
        rw [apply_cells ⟨cells, p⟩, if_pos hscrolls] at hcells
        have hcell := congrFun (congrFun hcells (p.move step op).1.row) q.col
        rw [scroll_last _ (by omega)] at hcell
        exact (hlast hq).apply hq op _ q.col (by omega) hcell
      · exact Cursor.move_eq_of_row hstep (hrow.resolve_left hq) hcursor
    exact ⟨(Cursor.move_eq_iff hstep op).1 hmove,
      ih (row_lt_or_move q step op) (fun hq => (hlast hq).apply hq op) htail⟩

/-- **Beginning at the same place** is writing, on all screens and after every operation, exactly if
the operations act alike. -/
theorem writeFixed_eq_iff [Nontrivial α] (hstep : 0 < step) :
    (∀ cells n, writeFixed blank step q ⟨cells, p⟩ (ops.take n) =
      write blank step ⟨cells, p⟩ (ops.take n)) ↔ Cursor.Alike step q p ops := by
  refine ⟨fun h => ?_, fun h cells n => writeFixed_eq hstep (alike_take h n) cells⟩
  cases ops with
  | nil => trivial
  | cons op ops =>
    have hmove := (apply_eq_iff hstep).1 fun cells => (writeFixed_eq_tail (h cells)).1
    obtain ⟨a, ha⟩ := exists_ne blank
    have hfull : LastLineFull blank fun (_ : Fin R) (_ : Fin C) => a := fun _ _ _ => ha
    obtain ⟨-, htail⟩ := writeFixed_eq_tail (h fun _ _ => a)
    exact ⟨(Cursor.move_eq_iff hstep op).1 hmove.symm, alike_of_writeFixed_eq hstep
      (row_lt_or_move q step op) (fun hq => hfull.apply hq op) htail⟩

end Terminal

end LxApi32
