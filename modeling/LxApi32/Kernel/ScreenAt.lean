import LxApi32.Kernel.Screen

/-!
# Messages at a position

`LX_scr_put_string_at` gets pointers to a row and a column.  `_LX_scr_put_char_at` reads them where
they are null, and `cur_row` and `cur_col` where they are not, and writes the new position back to
them.  With pointers to a position of its own a caller gets each character of the message at the
cursor, and with null pointers there is no first character.

* `Scr.putChars_own` : with a position of a caller, every character begins at the cursor.
* `Scr.writesAt_iff` : when a message is written as on a terminal, from the position that is given.
-/

namespace LxApi32

/-- The text page and the position of the caller are those of a terminal; the cursor is at `q`. -/
structure Scr.ShowsOwn (s : Scr) (t : ScrTerminal) (q : Cursor 25 80) : Prop where
  /-- What is on the screen. -/
  cells : screen s.mem = t.cells
  /-- The line of the position. -/
  row : s.ownRow = t.cursor.row.val
  /-- Its column. -/
  col : s.ownCol = t.cursor.col.val
  /-- The line of the cursor. -/
  curRow : s.curRow = q.row.val
  /-- Its column. -/
  curCol : s.curCol = q.col.val

namespace Scr

/-- What a caller that has given `ptr` sees: the terminal is at the position given, which is the
cursor if it is not one of the caller's own. -/
def ShowsAt (ptr : ScrPtr) (s : Scr) (t : ScrTerminal) (q : Cursor 25 80) : Prop :=
  match ptr with
  | .own => s.ShowsOwn t q
  | .cur | .null => s.Shows t

/-- The operations of a message. -/
def messageOps (msg : Bytes) : List (Terminal.Op ScrCell) :=
  let (attr, text) := leadAttr (CString.str msg)
  text.map (termOp attr)

/-- A message is written from the position `p` on: after each of its characters the page and the
position are those of the terminal, and the function returns 0 and leaves them so.  A cursor that is
not the position stays at `q`. -/
def WritesAt (ptr : ScrPtr) (msg : Bytes) (p q : Cursor 25 80) : Prop :=
  let (attr, text) := leadAttr (CString.str msg)
  ∀ (s : Scr) cells, s.mapped = true → s.ShowsAt ptr ⟨cells, p⟩ q →
    (∀ n, ∃ s', s.putChars ptr ptr attr stringFlags (text.take n) = some s' ∧
      s'.ShowsAt ptr (Terminal.write blankCell 8 ⟨cells, p⟩ ((messageOps msg).take n)) q) ∧
    ∃ s', s.putStringAt ptr ptr msg = some (0, s') ∧
      s'.ShowsAt ptr (writeMessage ⟨cells, p⟩ msg) q

/-- The messages that are written so: for a position of the caller's own, those whose characters act
alike from the cursor and from where the one before has led; for null pointers, empty ones. -/
def WritesWhen (ptr : ScrPtr) (msg : Bytes) (p q : Cursor 25 80) : Prop :=
  match ptr with
  | .own => Cursor.Alike 8 q p (messageOps msg)
  | .cur => True
  | .null => messageOps msg = []

/-! ### Characters -/

variable {s : Scr} {t : ScrTerminal} {p q : Cursor 25 80}

theorem messageOps_eq {msg text : Bytes} {attr : UInt8}
    (hlead : leadAttr (CString.str msg) = (attr, text)) :
    messageOps msg = text.map (termOp attr) := by
  unfold messageOps
  rw [hlead]

/-- A character with a position of the caller is written from the cursor on. -/
theorem putCharAt_own (hmapped : s.mapped = true) (h : s.ShowsOwn t q) (c attr : UInt8) :
    ∃ s', s.putCharAt .own .own c attr stringFlags = some (0, s') ∧ s'.mapped = true ∧
      s'.ShowsOwn (Terminal.apply blankCell 8 ⟨t.cells, q⟩ (termOp attr c)) q := by
  have hcur : s.Shows ⟨t.cells, q⟩ := ⟨h.cells, h.curRow, h.curCol⟩
  obtain ⟨m', hput, hscreen⟩ :=
    putCharAt_spec hmapped hcur (by decide : ScrPtr.own ≠ .null) c attr
  exact ⟨_, hput, hmapped, hscreen, rfl, rfl, h.curRow, h.curCol⟩

/-- **With a position of the caller** every character begins at the cursor. -/
theorem putChars_own (hmapped : s.mapped = true) (h : s.ShowsOwn t q) (attr : UInt8)
    (text : Bytes) :
    ∃ s', s.putChars .own .own attr stringFlags text = some s' ∧
      s'.ShowsOwn (Terminal.writeFixed blankCell 8 q t (text.map (termOp attr))) q := by
  induction text generalizing s t with
  | nil => exact ⟨s, rfl, h⟩
  | cons c text ih =>
    obtain ⟨s₁, hput, hmapped₁, h₁⟩ := putCharAt_own hmapped h c attr
    obtain ⟨s', hrest, h'⟩ := ih hmapped₁ h₁
    refine ⟨s', ?_, h'⟩
    rw [putChars, hput, ScrMem.some_bind]
    exact hrest

theorem ShowsAt.setCursorPos {ptr : ScrPtr} (h : s.ShowsAt ptr t q) (row col : ℤ) :
    (s.setCursorPos row col).ShowsAt ptr t q := by
  cases ptr with
  | own => exact ⟨h.cells, h.row, h.col, h.curRow, h.curCol⟩
  | cur | null => exact ⟨h.cells, h.row, h.col⟩

/-- A message is written as on the terminal if its loop is. -/
theorem writesAt_of_putChars {ptr : ScrPtr} {msg text : Bytes} {attr : UInt8}
    (hlead : leadAttr (CString.str msg) = (attr, text))
    (h : ∀ (s : Scr) cells, s.mapped = true → s.ShowsAt ptr ⟨cells, p⟩ q → ∀ n, ∃ s',
      s.putChars ptr ptr attr stringFlags (text.take n) = some s' ∧
        s'.ShowsAt ptr
          (Terminal.write blankCell 8 ⟨cells, p⟩ ((text.map (termOp attr)).take n)) q) :
    WritesAt ptr msg p q := by
  unfold WritesAt messageOps writeMessage
  rw [hlead]
  intro s cells hmapped hstart
  refine ⟨h s cells hmapped hstart, ?_⟩
  obtain ⟨s', hput, hshows⟩ := h s cells hmapped hstart text.length
  rw [List.take_length] at hput
  rw [List.take_of_length_le (by simp)] at hshows
  exact ⟨_, putStringAt_of_putChars hmapped (by rw [hlead]; exact hput), hshows.setCursorPos _ _⟩

/-! ### Pages -/

/-- A page that shows what is on a terminal. -/
def pageOf (cells : Fin 25 → Fin 80 → ScrCell) : ScrMem := fun i =>
  let cell := cells (Fin.ofNat 25 (i.toNat / 160)) (Fin.ofNat 80 (i.toNat % 160 / 2))
  if i % 2 = 0 then cell.1 else cell.2

theorem screen_pageOf (cells : Fin 25 → Fin 80 → ScrCell) : screen (pageOf cells) = cells := by
  funext r c
  have hr := r.isLt
  have hc := c.isLt
  have hrow (d : ℕ) (hd : d < 2) :
      Fin.ofNat 25 ((r.val * 160 + c.val * 2 + d : ℤ).toNat / 160) = r :=
    Fin.ext (by rw [Fin.val_ofNat]; omega)
  have hcol (d : ℕ) (hd : d < 2) :
      Fin.ofNat 80 ((r.val * 160 + c.val * 2 + d : ℤ).toNat % 160 / 2) = c :=
    Fin.ext (by rw [Fin.val_ofNat]; omega)
  have hrow₀ := hrow 0 (by decide)
  have hcol₀ := hcol 0 (by decide)
  have hrow₁ := hrow 1 (by decide)
  have hcol₁ := hcol 1 (by decide)
  push_cast at hrow₀ hcol₀ hrow₁ hcol₁
  rw [add_zero] at hrow₀ hcol₀
  unfold screen pageOf
  dsimp only
  rw [hrow₀, hcol₀, hrow₁, hcol₁, if_pos (by omega), if_neg (by omega)]

theorem ShowsOwn.unique {t' : ScrTerminal} (h : s.ShowsOwn t q) (h' : s.ShowsOwn t' q) :
    t = t' := by
  refine Terminal.ext (h.cells.symm.trans h'.cells) ?_
  exact Cursor.eq_of_val (Int.ofNat.inj (h.row.symm.trans h'.row))
    (Int.ofNat.inj (h.col.symm.trans h'.col))

/-! ### When a message is written as on a terminal -/

instance : Nontrivial ScrCell := ⟨⟨blankCell, (0, 0), by decide⟩⟩

theorem writesAt_own_iff (msg : Bytes) (p q : Cursor 25 80) :
    WritesAt .own msg p q ↔ Cursor.Alike 8 q p (messageOps msg) := by
  obtain ⟨attr, text, hlead⟩ : ∃ attr text, leadAttr (CString.str msg) = (attr, text) :=
    ⟨_, _, rfl⟩
  have hops := messageOps_eq hlead
  rw [hops, ← Terminal.writeFixed_eq_iff (by decide : 0 < 8)]
  constructor
  · intro h cells n
    unfold WritesAt at h
    rw [hlead, hops] at h
    let s : Scr := { mem := pageOf cells, mapped := true, curRow := q.row.val, curCol := q.col.val,
                     vga := (0, 0), ownRow := p.row.val, ownCol := p.col.val }
    have hstart : s.ShowsOwn ⟨cells, p⟩ q := ⟨screen_pageOf cells, rfl, rfl, rfl, rfl⟩
    obtain ⟨s₁, hput₁, h₁⟩ := (h s cells rfl hstart).1 n
    obtain ⟨s₂, hput₂, h₂⟩ := putChars_own rfl hstart attr (text.take n)
    obtain rfl : s₁ = s₂ := Option.some.inj (hput₁.symm.trans hput₂)
    rw [List.map_take] at h₂
    exact h₂.unique h₁
  · intro h
    refine writesAt_of_putChars hlead fun s cells hmapped hstart n => ?_
    obtain ⟨s', hput, h'⟩ := putChars_own hmapped hstart attr (text.take n)
    rw [List.map_take, h cells n] at h'
    exact ⟨s', hput, h'⟩

theorem writesAt_cur (msg : Bytes) (p q : Cursor 25 80) : WritesAt .cur msg p q := by
  refine writesAt_of_putChars rfl fun s cells hmapped hstart n => ?_
  obtain ⟨s', hput, -, h'⟩ := putChars_cur hmapped hstart _ (List.take n _)
  rw [List.map_take] at h'
  exact ⟨s', hput, h'⟩

theorem writesAt_null_iff (msg : Bytes) (p q : Cursor 25 80) :
    WritesAt .null msg p q ↔ messageOps msg = [] := by
  obtain ⟨attr, text, hlead⟩ : ∃ attr text, leadAttr (CString.str msg) = (attr, text) :=
    ⟨_, _, rfl⟩
  have hops := messageOps_eq hlead
  rw [hops]
  cases text with
  | nil =>
    refine iff_of_true (writesAt_of_putChars hlead fun s cells _ hstart n => ?_) rfl
    rw [List.take_nil, List.map_nil, List.take_nil]
    exact ⟨s, rfl, hstart⟩
  | cons c text =>
    refine iff_of_false (fun h => ?_) (List.cons_ne_nil _ _)
    unfold WritesAt at h
    rw [hlead] at h
    let blank : Fin 25 → Fin 80 → ScrCell := fun _ _ => blankCell
    let s : Scr := { mem := pageOf blank, mapped := true, curRow := p.row.val,
                     curCol := p.col.val, vga := (0, 0), ownRow := 0, ownCol := 0 }
    have hstart : s.Shows ⟨blank, p⟩ := ⟨screen_pageOf blank, rfl, rfl⟩
    obtain ⟨s', hput, -⟩ := (h s blank rfl hstart).1 1
    have hnull : ¬ (ScrPtr.null ≠ .null ∧ ScrPtr.null ≠ .null) := fun h => h.1 rfl
    rw [List.take_succ_cons, putChars, putCharAt_of_null rfl hnull] at hput
    cases hput

/-- **When a message is written** as on a terminal, from the position that is given. -/
theorem writesAt_iff (ptr : ScrPtr) (msg : Bytes) (p q : Cursor 25 80) :
    WritesAt ptr msg p q ↔ WritesWhen ptr msg p q := by
  cases ptr with
  | null => exact writesAt_null_iff msg p q
  | cur => exact iff_of_true (writesAt_cur msg p q) trivial
  | own => exact writesAt_own_iff msg p q

/-- One letter at the beginning of the page, when the cursor is in its last line. -/
theorem not_writesAt_a : ¬ WritesAt .own [0x61] ⟨0, 0⟩ ⟨24, 0⟩ := by
  rw [writesAt_own_iff]
  decide

end Scr

end LxApi32
