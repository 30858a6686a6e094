import LxApi32.Kernel.Screen
import LxApi32.Lib.SpinLock

/-!
# The lock of the screen

Most functions of `oo_scrio.c` have two forms: one that takes `scr_lock`, and one for those that
hold it, whose name begins with an underscore.  The loop of `_LX_clear_screen` calls the first form
of `LX_scr_clear_row`, with the lock held by `LX_clear_screen`, and always for the same line.

* `ScrOp.call_of_safe` : what every other function does with the lock.
* `lxClearScreen_relock` : `LX_clear_screen` does not return when there is a screen.
* `screenOps_iff` : in which runs every function returns and releases the lock.
-/

namespace LxApi32

open Guarded

/-! ### The forms for those that hold the lock -/

namespace Scr

/-- `_LX_scr_scroll_up` -/
def scrollUp (s : Scr) : Option (ULONG × Scr) :=
  if s.mapped then do
    let mem ← s.mem.scrollUp
    some (0, { s with mem })
  else some (negEnxio, s)

/-- `_LX_scr_clear_row` -/
def clearRow (row : ℤ) (s : Scr) : Option (ULONG × Scr) :=
  if s.mapped then do
    let mem ← s.mem.clearRow row
    some (0, { s with mem })
  else some (negEnxio, s)

/-- What `LX_open_screen` does with the lock held. -/
def takeCursorPos (vga : UInt8 × UInt8) (s : Scr) : Option (ULONG × Scr) := do
  let (crow, ccol) := getCursorPos vga
  let (mem, curRow, curCol) ← s.mem.checkCsrPos s.mapped crow ccol
  some (0, { s with mem, curRow, curCol, vga })

/-- What `LX_open_screen` does after that. -/
def mapPage (page : Option ScrMem) (s : Scr) : ULONG × Scr :=
  if s.mapped then (0, s)
  else match page with
    | some mem => (0, { s with mem, mapped := true })
    | none => (negEnxio, s)

theorem openScreen_eq (s : Scr) (vga : UInt8 × UInt8) (page : Option ScrMem) :
    s.openScreen vga page = (s.takeCursorPos vga).map fun r => r.2.mapPage page := by
  unfold openScreen takeCursorPos mapPage
  dsimp only
  cases s.mem.checkCsrPos s.mapped (getCursorPos vga).1 (getCursorPos vga).2 with
  | none => rfl
  | some r =>
    rw [ScrMem.some_bind, ScrMem.some_bind, Option.map_some]
    dsimp only
    split_ifs
    · rfl
    · cases page <;> rfl

end Scr

/-! ### The forms that take the lock -/

/-- A result and the screen, if the function returns. -/
abbrev ScrRes := Except LockStop (ULONG × Guarded Scr)

/-- `LX_scr_clear_row` -/
def lxScrClearRow (row : ℤ) : Guarded Scr → ScrRes := withLock (lift (Scr.clearRow row))

/-- `LX_scr_scroll_up` -/
def lxScrScrollUp : Guarded Scr → ScrRes := withLock (lift Scr.scrollUp)

/-- `LX_scr_put_char_at` -/
def lxScrPutCharAt (row col : ScrPtr) (c attr : UInt8) (flags : ULONG) : Guarded Scr → ScrRes :=
  withLock (lift fun s => s.putCharAt row col c attr flags)

/-- `LX_scr_put_string_at` -/
def lxScrPutStringAt (row col : ScrPtr) (msg : Bytes) : Guarded Scr → ScrRes :=
  withLock (lift fun s => s.putStringAt row col msg)

/-- `LX_scr_put_string` -/
def lxScrPutString (msg : Bytes) : Guarded Scr → ScrRes := lxScrPutStringAt .cur .cur msg

/-- The loop of `_LX_clear_screen`; `r` stays as it is. -/
def clearRows (r : ℤ) : ℕ → Guarded Scr → Except LockStop (Guarded Scr)
  | 0, _ => .error .fuel
  | fuel + 1, s =>
    if r < maxRows then do
      let (_, s) ← lxScrClearRow r s
      clearRows r fuel s
    else .ok s

/-- `_LX_clear_screen` -/
def clearScreen (fuel : ℕ) (s : Guarded Scr) : ScrRes :=
  if s.val.mapped then do
    let s ← clearRows 0 fuel s
    .ok (0, s)
  else .ok (negEnxio, s)

/-- `LX_clear_screen` -/
def lxClearScreen (fuel : ℕ) : Guarded Scr → ScrRes := withLock (clearScreen fuel)

/-- `LX_open_screen` -/
def lxOpenScreen (vga : UInt8 × UInt8) (page : Option ScrMem) (s : Guarded Scr) : ScrRes := do
  let (_, s) ← withLock (lift (Scr.takeCursorPos vga)) s
  let (rc, val) := s.val.mapPage page
  .ok (rc, { s with val })

/-- `LX_close_screen` -/
def lxCloseScreen : Guarded Scr → ScrRes := withLock (lift fun s => some s.closeScreen)

/-- The functions that are exported. -/
inductive ScrOp
  /-- `LX_scr_put_char_at` -/
  | putCharAt (row col : ScrPtr) (c attr : UInt8) (flags : ULONG)
  /-- `LX_scr_put_string_at` -/
  | putStringAt (row col : ScrPtr) (msg : Bytes)
  /-- `LX_scr_put_string` -/
  | putString (msg : Bytes)
  /-- `LX_scr_scroll_up` -/
  | scrollUp
  /-- `LX_clear_screen` -/
  | clearScreen
  /-- `LX_open_screen` -/
  | openScreen (vga : UInt8 × UInt8) (page : Option ScrMem)
  /-- `LX_close_screen` -/
  | closeScreen

/-- A state between two functions: the lock is free, and the cursor is on the page. -/
structure IdleScreen where
  /-- The memory of the screen. -/
  mem : ScrMem
  /-- `virt_scr_addr` is not 0. -/
  mapped : Bool
  /-- `cur_row` and `cur_col` -/
  cursor : Cursor 25 80
  /-- `VGA_REG_CURSORHIGH` and `VGA_REG_CURSORLOW` -/
  vga : UInt8 × UInt8
  /-- The row of a caller. -/
  ownRow : ℤ
  /-- The column of a caller. -/
  ownCol : ℤ

/-- The variables of the state. -/
def IdleScreen.scr (i : IdleScreen) : Scr :=
  { mem := i.mem, mapped := i.mapped, curRow := i.cursor.row.val, curCol := i.cursor.col.val,
    vga := i.vga, ownRow := i.ownRow, ownCol := i.ownCol }

/-- With the lock. -/
def IdleScreen.guarded (i : IdleScreen) : Guarded Scr := ⟨i.scr, false⟩

namespace ScrOp

/-- What a call does, with at most `fuel` rounds of a loop that need not end. -/
def call (fuel : ℕ) : ScrOp → Guarded Scr → ScrRes
  | .putCharAt row col c attr flags => lxScrPutCharAt row col c attr flags
  | .putStringAt row col msg => lxScrPutStringAt row col msg
  | .putString msg => lxScrPutString msg
  | .scrollUp => lxScrScrollUp
  | .clearScreen => lxClearScreen fuel
  | .openScreen vga page => lxOpenScreen vga page
  | .closeScreen => lxCloseScreen

/-- A screen is blank after it has been cleared. -/
def Cleared (s s' : Scr) : ScrOp → Prop
  | .clearScreen => s.mapped = true → screen s'.mem = fun _ _ => blankCell
  | _ => True

/-- A call does not take the lock while it is held; it comes to its end and releases the lock. -/
structure Returns (s : Guarded Scr) (op : ScrOp) : Prop where
  /-- The lock is not taken while it is held. -/
  noRelock : ∀ fuel, op.call fuel s ≠ .error .relock
  /-- The call returns. -/
  released : ∃ fuel rc s', op.call fuel s = .ok (rc, s') ∧ s'.held = false ∧
    op.Cleared s.val s'.val

/-- The calls that return: when there is a screen, it is not cleared, and no character is written
with a null pointer. -/
def Safe (s : Scr) : ScrOp → Prop
  | .putCharAt row col _ _ _ => s.mapped = true → row ≠ .null ∧ col ≠ .null
  | .putStringAt row col msg =>
    s.mapped = true → (row ≠ .null ∧ col ≠ .null) ∨ (leadAttr (CString.str msg)).2 = []
  | .clearScreen => s.mapped = false
  | .putString _ | .scrollUp | .openScreen _ _ | .closeScreen => True

end ScrOp

/-- The screen and those who call its functions. -/
def scrLockMachine (fuel : ℕ) (s : Guarded Scr) : Machine (Guarded Scr) ScrOp :=
  ⟨s, fun s op => (op.call fuel s).toOption.map Prod.snd⟩

/-! ### The cursor stays on the page -/

namespace Scr

/-- The cursor is on the page. -/
def OnPage (s : Scr) : Prop := ∃ p : Cursor 25 80, s.curRow = p.row.val ∧ s.curCol = p.col.val

variable {s : Scr}

/-- New places for the row and the column, whether they are the cursor's or not. -/
theorem OnPage.set (h : s.OnPage) (row col : ScrPtr) (p : Cursor 25 80) :
    ((s.setRow p.row.val row).setCol p.col.val col).OnPage := by
  obtain ⟨q, hrow, hcol⟩ := h
  cases row with
  | own =>
    cases col with
    | own => exact ⟨q, hrow, hcol⟩
    | cur | null => exact ⟨⟨q.row, p.col⟩, hrow, rfl⟩
  | cur | null =>
    cases col with
    | own => exact ⟨⟨p.row, q.col⟩, rfl, hcol⟩
    | cur | null => exact ⟨p, rfl, rfl⟩

theorem mapped_set (s : Scr) (row col : ScrPtr) (r c : ℤ) :
    ((s.setRow r row).setCol c col).mapped = s.mapped := by
  cases row <;> cases col <;> rfl

/-- A character is written with any flags. -/
theorem putCharAt_onPage (hmapped : s.mapped = true) (h : s.OnPage) {row col : ScrPtr}
    (hrow : row ≠ .null) (hcol : col ≠ .null) (c attr : UInt8) (flags : ULONG) :
    ∃ s', s.putCharAt row col c attr flags = some (0, s') ∧ s'.mapped = true ∧ s'.OnPage := by
  obtain ⟨p, hprow, hpcol⟩ := h
  obtain ⟨m', hput, -⟩ := ScrMem.putReal_flags s.mem p c attr flags
  have hset : OnPage { s with mem := m', curRow := p.row.val, curCol := p.col.val } :=
    ⟨p, rfl, rfl⟩
  unfold putCharAt
  rw [if_pos hmapped, if_pos hrow, ScrMem.some_bind, if_pos hcol, ScrMem.some_bind, hprow, hpcol,
    hput, ScrMem.some_bind]
  dsimp only
  refine ⟨_, rfl, ?_, ?_⟩
  · split_ifs
    · exact (mapped_set _ row col _ _).trans hmapped
    · exact (mapped_set _ row col _ _).trans hmapped
  · split_ifs
    · exact hset.set row col _
    · exact hset.set row col _

/-- With a screen or without. -/
theorem putCharAt_returns (h : s.OnPage) {row col : ScrPtr}
    (hptr : s.mapped = true → row ≠ .null ∧ col ≠ .null) (c attr : UInt8) (flags : ULONG) :
    ∃ rc s', s.putCharAt row col c attr flags = some (rc, s') ∧ s'.OnPage := by
  by_cases hmapped : s.mapped = true
  · obtain ⟨hrow, hcol⟩ := hptr hmapped
    obtain ⟨s', hput, -, h'⟩ := putCharAt_onPage hmapped h hrow hcol c attr flags
    exact ⟨0, s', hput, h'⟩
  · exact ⟨negEnxio, s, if_neg hmapped, h⟩

/-- The loop of a message. -/
theorem putChars_onPage (hmapped : s.mapped = true) (h : s.OnPage) {row col : ScrPtr}
    (hrow : row ≠ .null) (hcol : col ≠ .null) (attr : UInt8) (flags : ULONG) (text : Bytes) :
    ∃ s', s.putChars row col attr flags text = some s' ∧ s'.mapped = true ∧ s'.OnPage := by
  induction text generalizing s with
  | nil => exact ⟨s, rfl, hmapped, h⟩
  | cons c text ih =>
    obtain ⟨s₁, hput, hmapped₁, h₁⟩ := putCharAt_onPage hmapped h hrow hcol c attr flags
    obtain ⟨s', hrest, hmapped', h'⟩ := ih hmapped₁ h₁
    refine ⟨s', ?_, hmapped', h'⟩
    rw [putChars, hput, ScrMem.some_bind]
    exact hrest

/-- A message is written, if it does not have a character for a null pointer. -/
theorem putStringAt_onPage (hmapped : s.mapped = true) (h : s.OnPage) {row col : ScrPtr}
    {msg : Bytes}
    (hsafe : (row ≠ .null ∧ col ≠ .null) ∨ (leadAttr (CString.str msg)).2 = []) :
    ∃ s', s.putStringAt row col msg = some (0, s') ∧ s'.OnPage := by
  obtain ⟨s', hput, h'⟩ : ∃ s', s.putChars row col (leadAttr (CString.str msg)).1 stringFlags
      (leadAttr (CString.str msg)).2 = some s' ∧ s'.OnPage := by
    rcases hsafe with ⟨hrow, hcol⟩ | hnil
    · obtain ⟨s', hput, -, h'⟩ := putChars_onPage hmapped h hrow hcol
        (leadAttr (CString.str msg)).1 stringFlags (leadAttr (CString.str msg)).2
      exact ⟨s', hput, h'⟩
    · rw [hnil]
      exact ⟨s, rfl, h⟩
  exact ⟨_, putStringAt_of_putChars hmapped hput, h'⟩

/-- With a screen or without. -/
theorem putStringAt_returns (h : s.OnPage) {row col : ScrPtr} {msg : Bytes}
    (hsafe : s.mapped = true →
      (row ≠ .null ∧ col ≠ .null) ∨ (leadAttr (CString.str msg)).2 = []) :
    ∃ rc s', s.putStringAt row col msg = some (rc, s') ∧ s'.OnPage := by
  by_cases hmapped : s.mapped = true
  · obtain ⟨s', hput, h'⟩ := putStringAt_onPage hmapped h (hsafe hmapped)
    exact ⟨0, s', hput, h'⟩
  · exact ⟨negEnxio, s, if_neg hmapped, h⟩

/-- A message with a character, for a null pointer. -/
theorem putStringAt_of_null (hmapped : s.mapped = true) {row col : ScrPtr} {msg : Bytes}
    (hnull : ¬ (row ≠ .null ∧ col ≠ .null)) (htext : (leadAttr (CString.str msg)).2 ≠ []) :
    s.putStringAt row col msg = none := by
  obtain ⟨c, text, hcons⟩ := List.exists_cons_of_ne_nil htext
  have hspec : CString.str (stringAttr msg).2 = c :: text := by
    rw [← hcons, ← stringAttr_spec]
  unfold putStringAt
  rw [if_pos hmapped]
  dsimp only
  rw [hspec, putChars, putCharAt_of_null hmapped hnull]
  rfl

/-- Scrolling leaves the cursor where it is. -/
theorem scrollUp_onPage (h : s.OnPage) : ∃ rc s', s.scrollUp = some (rc, s') ∧ s'.OnPage := by
  unfold scrollUp
  split_ifs with hmapped
  · obtain ⟨m', hscroll, -⟩ := ScrMem.scrollUp_spec s.mem
    rw [hscroll]
    exact ⟨0, _, rfl, h⟩
  · exact ⟨negEnxio, s, rfl, h⟩

/-- The cursor of the registers comes to the page. -/
theorem takeCursorPos_onPage (s : Scr) (vga : UInt8 × UInt8) :
    ∃ s', s.takeCursorPos vga = some (0, s') ∧ s'.OnPage := by
  obtain ⟨m', hcheck, -⟩ := checkCsrPos_placeAt s.mapped s.mem (csrAddr vga)
  unfold takeCursorPos
  rw [getCursorPos_eq]
  dsimp only
  rw [hcheck, ScrMem.some_bind]
  exact ⟨_, rfl, placeAt (csrAddr vga), rfl, rfl⟩

theorem mapPage_onPage (h : s.OnPage) (page : Option ScrMem) : (s.mapPage page).2.OnPage := by
  unfold mapPage
  split_ifs
  · exact h
  · cases page <;> exact h

end Scr

/-! ### What the functions do with the lock -/

/-- The lock is free and the cursor on the page. -/
def Idle (s : Guarded Scr) : Prop := ∃ v : Scr, v.OnPage ∧ s = ⟨v, false⟩

theorem IdleScreen.idle (i : IdleScreen) : Idle i.guarded := ⟨i.scr, ⟨i.cursor, rfl, rfl⟩, rfl⟩

/-- A function with the lock around it. -/
theorem withLock_idle (f : Scr → Option (ULONG × Scr)) {v : Scr}
    (h : ∃ rc v', f v = some (rc, v') ∧ v'.OnPage) :
    ∃ rc s', withLock (lift f) ⟨v, false⟩ = .ok (rc, s') ∧ Idle s' := by
  obtain ⟨rc, v', hf, hpage⟩ := h
  exact ⟨rc, ⟨v', false⟩, withLock_lift hf, v', hpage, rfl⟩

/-- **The loop of `_LX_clear_screen`** does not come to an end: the lock is held. -/
theorem clearRows_held (fuel : ℕ) (v : Scr) :
    clearRows 0 (fuel + 1) ⟨v, true⟩ = .error .relock := by
  have hrow : (0 : ℤ) < maxRows := by decide
  rw [clearRows, if_pos hrow, lxScrClearRow, withLock_of_held]
  rfl

/-- **`LX_clear_screen`** takes the lock a second time. -/
theorem lxClearScreen_relock {v : Scr} (hmapped : v.mapped = true) (fuel : ℕ) :
    lxClearScreen (fuel + 1) ⟨v, false⟩ = .error .relock := by
  unfold lxClearScreen clearScreen
  rw [withLock_of_free, if_pos hmapped, clearRows_held]
  rfl

/-- With a screen `LX_clear_screen` does not return. -/
theorem lxClearScreen_ne_ok {v : Scr} (hmapped : v.mapped = true) (fuel : ℕ)
    (r : ULONG × Guarded Scr) : lxClearScreen fuel ⟨v, false⟩ ≠ .ok r := by
  intro h
  cases fuel with
  | zero =>
    unfold lxClearScreen clearScreen at h
    rw [withLock_of_free, if_pos hmapped] at h
    cases h
  | succ fuel =>
    rw [lxClearScreen_relock hmapped] at h
    cases h

/-- Without a screen there is nothing to clear. -/
theorem lxClearScreen_unmapped {v : Scr} (hmapped : v.mapped = false) (fuel : ℕ) :
    lxClearScreen fuel ⟨v, false⟩ = .ok (negEnxio, ⟨v, false⟩) := by
  unfold lxClearScreen clearScreen
  rw [withLock_of_free, if_neg (by rw [hmapped]; decide)]
  rfl

namespace ScrOp

variable {v : Scr}

/-- **Every other function** takes the lock once and releases it, and the cursor stays on the
page. -/
theorem call_of_safe (hpage : v.OnPage) {op : ScrOp} (hsafe : op.Safe v) :
    ∃ rc s', (∀ fuel, op.call fuel ⟨v, false⟩ = .ok (rc, s')) ∧ Idle s' := by
  cases op with
  | putCharAt row col c attr flags =>
    obtain ⟨rc, s', hcall, hidle⟩ :=
      withLock_idle (fun s => s.putCharAt row col c attr flags)
        (Scr.putCharAt_returns hpage hsafe c attr flags)
    exact ⟨rc, s', fun _ => hcall, hidle⟩
  | putStringAt row col msg =>
    obtain ⟨rc, s', hcall, hidle⟩ :=
      withLock_idle (fun s => s.putStringAt row col msg) (Scr.putStringAt_returns hpage hsafe)
    exact ⟨rc, s', fun _ => hcall, hidle⟩
  | putString msg =>
    have hcur : ScrPtr.cur ≠ .null := by decide
    obtain ⟨rc, s', hcall, hidle⟩ :=
      withLock_idle (fun s => s.putStringAt .cur .cur msg)
        (Scr.putStringAt_returns hpage fun _ => .inl ⟨hcur, hcur⟩)
    exact ⟨rc, s', fun _ => hcall, hidle⟩
  | scrollUp =>
    obtain ⟨rc, s', hcall, hidle⟩ := withLock_idle Scr.scrollUp (Scr.scrollUp_onPage hpage)
    exact ⟨rc, s', fun _ => hcall, hidle⟩
  | clearScreen =>
    exact ⟨negEnxio, ⟨v, false⟩, lxClearScreen_unmapped hsafe, v, hpage, rfl⟩
  | openScreen vga page =>
    obtain ⟨v', htake, hpage'⟩ := Scr.takeCursorPos_onPage v vga
    have hidle := Scr.mapPage_onPage hpage' page
    refine ⟨(v'.mapPage page).1, ⟨(v'.mapPage page).2, false⟩, fun _ => ?_, _, hidle, rfl⟩
    change lxOpenScreen vga page ⟨v, false⟩ = _
    unfold lxOpenScreen
    rw [withLock_lift htake]
    rfl
  | closeScreen =>
    have hclose : ∃ rc v', some v.closeScreen = some (rc, v') ∧ v'.OnPage := ⟨0, _, rfl, hpage⟩
    obtain ⟨rc, s', hcall, hidle⟩ := withLock_idle (fun s => some s.closeScreen) hclose
    exact ⟨rc, s', fun _ => hcall, hidle⟩

/-- **The others** do not return. -/
theorem call_of_not_safe {op : ScrOp} (hsafe : ¬ op.Safe v) (fuel : ℕ) (r : ULONG × Guarded Scr) :
    op.call fuel ⟨v, false⟩ ≠ .ok r := by
  intro h
  cases op with
  | putCharAt row col c attr flags =>
    unfold Safe at hsafe
    push Not at hsafe
    obtain ⟨hmapped, hnull⟩ := hsafe
    have hnone := Scr.putCharAt_of_null hmapped (by simpa using hnull) c attr flags
    cases (withLock_lift_none hnone).symm.trans h
  | putStringAt row col msg =>
    unfold Safe at hsafe
    obtain ⟨hmapped, hor⟩ := Classical.not_imp.1 hsafe
    obtain ⟨hnull, htext⟩ := not_or.1 hor
    have hnone := Scr.putStringAt_of_null hmapped hnull htext
    cases (withLock_lift_none hnone).symm.trans h
  | clearScreen => exact lxClearScreen_ne_ok (Bool.not_eq_false _ ▸ hsafe) fuel r h
  | putString _ | scrollUp | openScreen _ _ | closeScreen => exact hsafe trivial

/-- A call returns exactly if it is one of those. -/
theorem returns_iff (hpage : v.OnPage) (op : ScrOp) : op.Returns ⟨v, false⟩ ↔ op.Safe v := by
  constructor
  · rintro ⟨-, fuel, rc, s', hcall, -⟩
    by_contra hsafe
    exact call_of_not_safe hsafe fuel (rc, s') hcall
  · intro hsafe
    obtain ⟨rc, s', hcall, v', -, rfl⟩ := call_of_safe hpage hsafe
    refine ⟨fun fuel h => ?_, 0, rc, ⟨v', false⟩, hcall 0, rfl, ?_⟩
    · cases (hcall fuel).symm.trans h
    · cases op with
      | clearScreen =>
        intro hmapped
        cases hsafe.symm.trans hmapped
      | putCharAt _ _ _ _ _ | putStringAt _ _ _ | putString _ | scrollUp | openScreen _ _
      | closeScreen => trivial

end ScrOp

/-! ### Runs -/

/-- What returns leaves the lock free and the cursor on the page. -/
theorem idle_step {fuel : ℕ} {s₀ s s' : Guarded Scr} {op : ScrOp} (h : Idle s)
    (hsafe : op.Safe s.val) (hstep : (scrLockMachine fuel s₀).step s op = some s') : Idle s' := by
  obtain ⟨v, hpage, rfl⟩ := h
  obtain ⟨rc, s₁, hcall, hidle⟩ := ScrOp.call_of_safe hpage hsafe
  unfold scrLockMachine at hstep
  dsimp only at hstep
  rw [hcall] at hstep
  cases hstep
  exact hidle

/-- **In every run** of the exported functions no call takes the lock while it is held, and each one
returns and releases it, exactly if none clears the screen, or writes a character with a null
pointer, while there is a screen. -/
theorem screenOps_iff (fuel : ℕ) (i : IdleScreen) (ops : List ScrOp) :
    (scrLockMachine fuel i.guarded).Along (fun s op => op.Returns s) i.guarded ops ↔
      (scrLockMachine fuel i.guarded).Along (fun s op => op.Safe s.val) i.guarded ops := by
  have hiff (s : Guarded Scr) (op : ScrOp) (h : Idle s) : op.Returns s ↔ op.Safe s.val := by
    obtain ⟨v, hpage, rfl⟩ := h
    exact ScrOp.returns_iff hpage op
  constructor
  · exact Machine.along_of_along (fun s op h => (hiff s op h).1)
      (fun s op _ h hret hstep => idle_step h ((hiff s op h).1 hret) hstep) i.idle
  · exact Machine.along_of_along (fun s op h => (hiff s op h).2)
      (fun _ _ _ h hsafe hstep => idle_step h hsafe hstep) i.idle

/-- A blank page. -/
def blankPage : ScrMem := fun i => if i % 2 = 0 then 0x20 else 7

/-- The variables before the first call. -/
def startIdle : IdleScreen := ⟨blankPage, false, placeAt (24 * 80), (0, 0), 0, 0⟩

/-- The screen is opened and cleared. -/
theorem not_screenOps_clear : ¬ (scrLockMachine 1 startIdle.guarded).Along
    (fun s op => op.Returns s) startIdle.guarded
    [.openScreen (0, 0) (some blankPage), .clearScreen] := by
  rintro ⟨-, h⟩
  obtain ⟨⟨-, fuel, rc, s', hcall, -⟩, -⟩ := h _ rfl
  exact lxClearScreen_ne_ok rfl fuel (rc, s') hcall

end LxApi32
