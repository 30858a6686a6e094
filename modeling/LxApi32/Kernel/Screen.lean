import LxApi32.Daemon.Packet
import LxApi32.Lib.CString
import LxApi32.Lib.Machine
import LxApi32.Lib.Terminal
import Mathlib.Tactic.IntervalCases
import Mathlib.Tactic.Ring

/-!
# The screen

Messages of the start of the driver are written to the text page of the VGA, 25 lines of 80 cells
with two bytes each.  `oo_scrio.c` has a cursor of its own, which `LX_open_screen` takes from the
VGA registers and `LX_scr_put_string` puts back.

* `ScrMem.putReal_spec` : a character does on the page what it does on a terminal.
* `Scr.putString_spec` : a message does.
* `Scr.exec_refines` : in every run the screen is a terminal, and nothing is read or written beside
  the page.

The functions have no result where they would read or write beside the text page, or dereference a
null pointer.
-/

namespace LxApi32

/-- The memory from `virt_scr_addr` on, of which the first 4000 bytes are the text page. -/
abbrev ScrMem := ℤ → UInt8

/-- `max_cols` -/
def maxCols : ℤ := 80

/-- `max_rows` -/
def maxRows : ℤ := 25

/-- `tab_step` -/
def tabStep : ℤ := 8

/-- `LX_SCRATT_GREY`, the value of `cur_attr` and `std_attr` -/
def scrattGrey : UInt8 := 7

/-- `LX_SCRATT_DARK_RED` -/
def scrattDarkRed : UInt8 := 4

/-- `LX_SCRATT_LIGHT_BLUE` -/
def scrattLightBlue : UInt8 := 9

/-- `LX_SCRATT_LIGHT_GREEN` -/
def scrattLightGreen : UInt8 := 10

/-- `LX_SCRATT_LIGHT_CYAN` -/
def scrattLightCyan : UInt8 := 11

/-- `LX_SCRATT_LIGHT_RED` -/
def scrattLightRed : UInt8 := 12

/-- `LX_SCRATT_YELLOW` -/
def scrattYellow : UInt8 := 14

/-- `LX_SCRATT_FLASH` -/
def scrattFlash : UInt8 := 128

/-- `LX_SCRFLG_SETCHAR` -/
def scrflgSetchar : ULONG := 1

/-- `LX_SCRFLG_SETATTR` -/
def scrflgSetattr : ULONG := 2

/-- `LX_SCRFLG_NOUPDCSR` -/
def scrflgNoupdcsr : ULONG := 4

/-- `-ENXIO` as a `ULONG`. -/
def negEnxio : ULONG := -6

/-! ### The text page -/

namespace ScrMem

/-- A byte of the text page is read. -/
def read (m : ScrMem) (i : ℤ) : Option UInt8 := if 0 ≤ i ∧ i < 4000 then some (m i) else none

/-- A byte of the text page is written. -/
def write (m : ScrMem) (i : ℤ) (b : UInt8) : Option ScrMem :=
  if 0 ≤ i ∧ i < 4000 then some (Function.update m i b) else none

/-- `memcpy` from one place of the text page to another, as far as the `n`-th byte. -/
def memcpy (m : ScrMem) (dst src : ℤ) : ℕ → Option ScrMem
  | 0 => some m
  | n + 1 => do
    let m ← m.memcpy dst src n
    let b ← m.read (src + n)
    m.write (dst + n) b

/-- The loop of `_LX_scr_clear_row`, as far as the `n`-th cell. -/
def clearCells (m : ScrMem) (addr : ℤ) : ℕ → Option ScrMem
  | 0 => some m
  | n + 1 => do
    let m ← m.clearCells addr n
    let m ← m.write (addr + n * 2) 0x20
    m.write (addr + n * 2 + 1) scrattGrey

/-- `_LX_scr_clear_row` -/
def clearRow (m : ScrMem) (row : ℤ) : Option ScrMem :=
  m.clearCells (row * maxCols * 2) maxCols.toNat

/-- The loop of `_LX_scr_scroll_up`, as far as the `r`-th line. -/
def scrollRows (m : ScrMem) : ℕ → Option ScrMem
  | 0 => some m
  | r + 1 => do
    let m ← m.scrollRows r
    m.memcpy (r * (maxCols * 2)) (r * (maxCols * 2) + maxCols * 2) (maxCols * 2).toNat

/-- `_LX_scr_scroll_up` -/
def scrollUp (m : ScrMem) : Option ScrMem := do
  let m ← m.scrollRows (maxRows - 1).toNat
  m.clearRow (maxRows - 1)

/-- `_LX_scr_check_csr_pos`; without a screen it does not scroll. -/
def checkCsrPos (mapped : Bool) (m : ScrMem) (row col : ℤ) : Option (ScrMem × ℤ × ℤ) :=
  let row' := if maxCols ≤ col then row + 1 else row
  let col' := if maxCols ≤ col then 0 else col
  if maxRows ≤ row' then do
    let m ← if mapped then m.scrollUp else some m
    some (m, maxRows - 1, col')
  else some (m, row', col')

/-- The `switch` of `_LX_scr_put_char_at`. -/
def putSwitch (m : ScrMem) (realrow realcol : ℤ) (c attr : UInt8) (flags : ULONG) :
    Option (ScrMem × ℤ × ℤ) :=
  if c = 0x0D then some (m, realrow, 0)
  else if c = 0x0A then some (m, realrow + 1, realcol)
  else if c = 0x09 then some (m, realrow, (realcol + tabStep).tdiv tabStep * tabStep)
  else do
    let index := realrow * maxCols * 2 + realcol * 2
    let m ← (if flags &&& scrflgSetchar ≠ 0 then m.write index c else some m)
    let m ← (if flags &&& scrflgSetattr ≠ 0 then m.write (index + 1) attr else some m)
    some (m, realrow, realcol + 1)

/-- `_LX_scr_put_char_at` between the reading and the writing of the position. -/
def putReal (m : ScrMem) (realrow realcol : ℤ) (c attr : UInt8) (flags : ULONG) :
    Option (ScrMem × ℤ × ℤ) := do
  let (m, realrow, realcol) ← m.checkCsrPos true realrow realcol
  let (m, realrow, realcol) ← m.putSwitch realrow realcol c attr flags
  m.checkCsrPos true realrow realcol

end ScrMem

/-! ### The functions -/

/-- The variables of `oo_scrio.c`, and a position that belongs to a caller. -/
structure Scr where
  /-- The memory of the screen. -/
  mem : ScrMem
  /-- `virt_scr_addr` is not 0. -/
  mapped : Bool
  /-- `cur_row` -/
  curRow : ℤ
  /-- `cur_col` -/
  curCol : ℤ
  /-- `VGA_REG_CURSORHIGH` and `VGA_REG_CURSORLOW` -/
  vga : UInt8 × UInt8
  /-- The row of a caller. -/
  ownRow : ℤ
  /-- The column of a caller. -/
  ownCol : ℤ

/-- What a pointer to a row or a column points to. -/
inductive ScrPtr
  /-- Nothing. -/
  | null
  /-- `cur_row` or `cur_col` -/
  | cur
  /-- The variable of a caller. -/
  | own
  deriving DecidableEq, Repr

namespace Scr

/-- `*row` -/
def derefRow (s : Scr) : ScrPtr → Option ℤ
  | .null => none
  | .cur => some s.curRow
  | .own => some s.ownRow

/-- `*col` -/
def derefCol (s : Scr) : ScrPtr → Option ℤ
  | .null => none
  | .cur => some s.curCol
  | .own => some s.ownCol

/-- `if(row) *row=realrow; else cur_row=realrow;` -/
def setRow (s : Scr) (realrow : ℤ) : ScrPtr → Scr
  | .own => { s with ownRow := realrow }
  | .cur | .null => { s with curRow := realrow }

/-- `if(col) *col=realcol; else cur_col=realcol;` -/
def setCol (s : Scr) (realcol : ℤ) : ScrPtr → Scr
  | .own => { s with ownCol := realcol }
  | .cur | .null => { s with curCol := realcol }

/-- `_LX_scr_get_cursor_pos` -/
def getCursorPos (vga : UInt8 × UInt8) : ℤ × ℤ :=
  let addr : ℤ := vga.1.toNat * 256 + vga.2.toNat
  let row := addr.tdiv 80
  (row, addr - row * 80)

/-- `_LX_scr_set_cursor_pos` -/
def setCursorPos (s : Scr) (row col : ℤ) : Scr :=
  let addr := row * 80 + col
  { s with vga := (UInt8.ofNat (addr / 256 % 256).toNat, UInt8.ofNat (addr % 256).toNat) }

/-- `_LX_scr_put_char_at` -/
def putCharAt (s : Scr) (row col : ScrPtr) (c attr : UInt8) (flags : ULONG) :
    Option (ULONG × Scr) :=
  if s.mapped then do
    -- `realrow=(row) ? cur_row : *row`
    let realrow ← (if row ≠ .null then some s.curRow else s.derefRow row)
    let realcol ← (if col ≠ .null then some s.curCol else s.derefCol col)
    let (mem, realrow, realcol) ← s.mem.putReal realrow realcol c attr flags
    let s := ({ s with mem }.setRow realrow row).setCol realcol col
    some (0, if flags &&& scrflgNoupdcsr = 0 then s.setCursorPos s.curRow s.curCol else s)
  else some (negEnxio, s)

/-- The `switch` of `_LX_scr_put_string_at`. -/
def attrSwitch (c : UInt8) : UInt8 :=
  match c with
  | 0x30 => scrattLightRed ||| scrattFlash
  | 0x31 => scrattDarkRed ||| scrattFlash
  | 0x32 => scrattLightRed
  | 0x33 => scrattDarkRed
  | 0x34 => scrattYellow
  | 0x35 => scrattLightCyan
  | 0x36 => scrattLightGreen
  | 0x37 => scrattLightBlue
  | _ => scrattGrey

/-- The attribute that a message begins with, and the rest of the message. -/
def stringAttr (msg : Bytes) : UInt8 × Bytes :=
  if 2 < CString.strlen msg ∧ msg.getD 0 0 = 0x3C ∧ msg.getD 2 0 = 0x3E ∧
      0x30 ≤ msg.getD 1 0 ∧ msg.getD 1 0 ≤ 0x37 then
    (attrSwitch (msg.getD 1 0), msg.drop 3)
  else (scrattGrey, msg)

/-- The loop of `_LX_scr_put_string_at`. -/
def putChars (s : Scr) (row col : ScrPtr) (attr : UInt8) (flags : ULONG) : Bytes → Option Scr
  | [] => some s
  | c :: rest => do
    let (_, s) ← s.putCharAt row col c attr flags
    s.putChars row col attr flags rest

/-- The flags of `_LX_scr_put_string_at`. -/
def stringFlags : ULONG := scrflgSetchar ||| scrflgSetattr ||| scrflgNoupdcsr

/-- `LX_scr_put_string_at` -/
def putStringAt (s : Scr) (row col : ScrPtr) (msg : Bytes) : Option (ULONG × Scr) :=
  if s.mapped then do
    let (attr, c) := stringAttr msg
    let s ← s.putChars row col attr stringFlags (CString.str c)
    some (0, s.setCursorPos s.curRow s.curCol)
  else some (negEnxio, s)

/-- `LX_scr_put_string` -/
def putString (s : Scr) (msg : Bytes) : Option (ULONG × Scr) := s.putStringAt .cur .cur msg

/-- `LX_open_screen`, when the registers have the values `vga`; `page` is what the text page has, if
`DevVMAlloc` can map it. -/
def openScreen (s : Scr) (vga : UInt8 × UInt8) (page : Option ScrMem) : Option (ULONG × Scr) := do
  let (crow, ccol) := getCursorPos vga
  let (mem, curRow, curCol) ← s.mem.checkCsrPos s.mapped crow ccol
  let s := { s with mem, curRow, curCol, vga }
  if s.mapped then some (0, s)
  else match page with
    | some mem => some (0, { s with mem, mapped := true })
    | none => some (negEnxio, s)

/-- `LX_close_screen` -/
def closeScreen (s : Scr) : ULONG × Scr := (0, { s with mapped := false })

end Scr

/-- What is done with the screen. -/
inductive ScrAct
  /-- `LX_open_screen` -/
  | openScreen (vga : UInt8 × UInt8) (page : Option ScrMem)
  /-- `LX_close_screen` -/
  | closeScreen
  /-- `LX_scr_put_string` -/
  | putString (msg : Bytes)

namespace Scr

/-- The function that is called. -/
def act (s : Scr) : ScrAct → Option (ULONG × Scr)
  | .openScreen vga page => s.openScreen vga page
  | .closeScreen => some s.closeScreen
  | .putString msg => s.putString msg

/-- The variables before the first call. -/
def start (mem : ScrMem) (vga : UInt8 × UInt8) : Scr :=
  { mem, mapped := false, curRow := 24, curCol := 0, vga, ownRow := 0, ownCol := 0 }

/-- The results of the functions. -/
def results (s : Scr) (a : ScrAct) : List ULONG := ((s.act a).map Prod.fst).toList

/-- The screen of the driver. -/
def machine (s : Scr) : Machine Scr ScrAct := ⟨s, fun s a => (s.act a).map Prod.snd⟩

end Scr

/-! ### The terminal -/

/-- A character and its attribute. -/
abbrev ScrCell := UInt8 × UInt8

/-- A cell of a line that has been cleared. -/
def blankCell : ScrCell := (0x20, 7)

/-- A terminal with the lines and columns of the text page. -/
abbrev ScrTerminal := Terminal 25 80 ScrCell

/-- The attributes for `<0>` to `<7>`: light red and dark red, flashing, the same, yellow, light
cyan, light green and light blue. -/
def leadAttrs : List UInt8 := [140, 132, 12, 4, 14, 11, 10, 9]

/-- The attribute and the text of a message, which is grey if it does not say another. -/
def leadAttr : Bytes → UInt8 × Bytes
  | 0x3C :: d :: 0x3E :: text =>
    if 0x30 ≤ d ∧ d ≤ 0x37 then (leadAttrs.getD (d.toNat - 0x30) 7, text)
    else (7, 0x3C :: d :: 0x3E :: text)
  | text => (7, text)

/-- What a character tells the terminal. -/
def termOp (attr c : UInt8) : Terminal.Op ScrCell :=
  if c = 0x0D then .ret else if c = 0x0A then .down else if c = 0x09 then .tab else .put (c, attr)

/-- What is stored in a cell, as the flags have it. -/
def flagCell (flags : ULONG) (old : ScrCell) (c attr : UInt8) : ScrCell :=
  (if flags &&& scrflgSetchar ≠ 0 then c else old.1,
    if flags &&& scrflgSetattr ≠ 0 then attr else old.2)

/-- What a character tells the terminal when a part of the cell may stay as it is. -/
def flagOp (flags : ULONG) (old : ScrCell) (attr c : UInt8) : Terminal.Op ScrCell :=
  if c = 0x0D then .ret else if c = 0x0A then .down else if c = 0x09 then .tab
  else .put (flagCell flags old c attr)

/-- A message is written to a terminal. -/
def writeMessage (t : ScrTerminal) (msg : Bytes) : ScrTerminal :=
  let (attr, text) := leadAttr (CString.str msg)
  t.write blankCell 8 (text.map (termOp attr))

/-- Where the hardware shows the cursor. -/
def csrAddr (vga : UInt8 × UInt8) : ℕ := vga.1.toNat * 256 + vga.2.toNat

/-- What the text page shows. -/
def screen (m : ScrMem) : Fin 25 → Fin 80 → ScrCell :=
  fun r c => (m (r.val * 160 + c.val * 2), m (r.val * 160 + c.val * 2 + 1))

/-- A terminal as a driver has it. -/
structure RefScreen where
  /-- It is open. -/
  isOpen : Bool
  /-- What is on it. -/
  term : ScrTerminal
  /-- Where the hardware shows the cursor. -/
  csr : ℕ

/-- The place with an address, or the one in the last line below which it is. -/
def placeAt (addr : ℕ) : Cursor 25 80 := ⟨⟨min (addr / 80) 24, by omega⟩, ⟨addr % 80, by omega⟩⟩

/-- A place has its address. -/
def addrOf (p : Cursor 25 80) : ℕ := p.row.val * 80 + p.col.val

namespace RefScreen

/-- What is done with the terminal, and the result.  It is opened with the cursor of the hardware;
if it is open and that is below the last line, it scrolls. -/
def act (r : RefScreen) : ScrAct → ULONG × RefScreen
  | .openScreen vga page =>
    let addr := csrAddr vga
    let cursor := placeAt addr
    if r.isOpen then
      let cells := if 25 ≤ addr / 80 then Terminal.scroll blankCell r.term.cells else r.term.cells
      (0, ⟨true, ⟨cells, cursor⟩, addr⟩)
    else match page with
      | some mem => (0, ⟨true, ⟨screen mem, cursor⟩, addr⟩)
      | none => (negEnxio, ⟨false, ⟨r.term.cells, cursor⟩, addr⟩)
  | .closeScreen => (0, { r with isOpen := false })
  | .putString msg =>
    if r.isOpen then
      let term := writeMessage r.term msg
      (0, ⟨true, term, addrOf term.cursor⟩)
    else (negEnxio, r)

/-- The terminal before it is opened. -/
def start (mem : ScrMem) (vga : UInt8 × UInt8) : RefScreen :=
  ⟨false, ⟨screen mem, placeAt (24 * 80)⟩, csrAddr vga⟩

/-- The results. -/
def results (r : RefScreen) (a : ScrAct) : List ULONG := [(r.act a).1]

/-- The terminal. -/
def machine (r : RefScreen) : Machine RefScreen ScrAct := ⟨r, fun r a => some (r.act a).2⟩

end RefScreen

/-- The text page and the cursor are those of a terminal. -/
structure Scr.Shows (s : Scr) (t : ScrTerminal) : Prop where
  /-- What is on the screen. -/
  cells : screen s.mem = t.cells
  /-- The line of the cursor. -/
  row : s.curRow = t.cursor.row.val
  /-- Its column. -/
  col : s.curCol = t.cursor.col.val

/-- The screen is that of a terminal. -/
structure Scr.Refines (s : Scr) (r : RefScreen) : Prop extends s.Shows r.term where
  /-- It is open or not. -/
  mapped : s.mapped = r.isOpen
  /-- The hardware shows the cursor. -/
  vga : csrAddr s.vga = r.csr

/-! ### Loops over the page -/

namespace ScrMem

variable {m : ScrMem} {i : ℤ}

/-- A step of a function that has had a result up to there. -/
theorem some_bind {α β : Type} (a : α) (f : α → Option β) : (some a >>= f) = f a := rfl

theorem read_eq (h : 0 ≤ i ∧ i < 4000) : m.read i = some (m i) := if_pos h

theorem write_eq (h : 0 ≤ i ∧ i < 4000) (b : UInt8) :
    m.write i b = some (Function.update m i b) :=
  if_pos h

/-- A copy to a place before the source. -/
theorem memcpy_eq (m : ScrMem) {dst src : ℤ} (n : ℕ) (hdst : 0 ≤ dst) (hle : dst + n ≤ src)
    (hsrc : src + n ≤ 4000) :
    m.memcpy dst src n =
      some fun i => if dst ≤ i ∧ i < dst + n then m (i - dst + src) else m i := by
  induction n with
  | zero =>
    simp only [memcpy, Option.some.injEq]
    funext i
    rw [if_neg (by omega)]
  | succ n ih =>
    rw [memcpy, ih (by omega) (by omega), some_bind, read_eq (by omega), some_bind,
      write_eq (by omega), if_neg (by omega)]
    congr 1
    funext i
    by_cases hi : i = dst + n
    · rw [hi, Function.update_self, if_pos (by omega)]
      congr 1
      omega
    · rw [Function.update_of_ne hi]
      split_ifs <;> first | rfl | omega

/-- A line is copied to the one before it. -/
theorem memcpy_row (m : ScrMem) {r n : ℕ} (hr : r < 24) (hn : n = 160) :
    m.memcpy (r * (maxCols * 2)) (r * (maxCols * 2) + maxCols * 2) n = some fun i : ℤ =>
      if r * 160 ≤ i ∧ i < r * 160 + 160 then m (i + 160) else m i := by
  have hcols : maxCols * 2 = 160 := rfl
  rw [hcols, memcpy_eq m n (by omega) (by omega) (by omega)]
  congr 1
  funext i
  split_ifs <;> first | rfl | omega | (congr 1; omega)

/-- The first lines have moved up. -/
theorem scrollRows_eq (m : ScrMem) {r : ℕ} (hr : r ≤ 24) :
    m.scrollRows r = some fun i : ℤ => if 0 ≤ i ∧ i < r * 160 then m (i + 160) else m i := by
  induction r with
  | zero =>
    simp only [scrollRows, Option.some.injEq]
    funext i
    rw [if_neg (by omega)]
  | succ r ih =>
    have hsz : (maxCols * 2).toNat = 160 := rfl
    rw [scrollRows, ih (by omega), some_bind, memcpy_row _ (by omega) hsz]
    congr 1
    funext i
    split_ifs <;> first | rfl | omega

/-- The first cells are blank. -/
theorem clearCells_eq (m : ScrMem) {addr : ℤ} (n : ℕ) (haddr : 0 ≤ addr)
    (hle : addr + n * 2 ≤ 4000) :
    m.clearCells addr n = some fun i =>
      if addr ≤ i ∧ i < addr + n * 2 then if (i - addr) % 2 = 0 then 0x20 else scrattGrey
      else m i := by
  induction n with
  | zero =>
    simp only [clearCells, Option.some.injEq]
    funext i
    rw [if_neg (by omega)]
  | succ n ih =>
    rw [clearCells, ih (by omega), some_bind, write_eq (by omega), some_bind, write_eq (by omega)]
    congr 1
    funext i
    by_cases hattr : i = addr + n * 2 + 1
    · rw [hattr, Function.update_self, if_pos (by omega), if_neg (by omega)]
    · rw [Function.update_of_ne hattr]
      by_cases hchar : i = addr + n * 2
      · rw [hchar, Function.update_self, if_pos (by omega), if_pos (by omega)]
      · rw [Function.update_of_ne hchar]
        split_ifs <;> first | rfl | omega

/-- **Scrolling** the page scrolls the screen. -/
theorem scrollUp_spec (m : ScrMem) :
    ∃ m', m.scrollUp = some m' ∧ screen m' = Terminal.scroll blankCell (screen m) := by
  have hrows : (maxRows - 1).toNat = 24 := rfl
  have hcols : maxCols.toNat = 80 := rfl
  have haddr : (maxRows - 1) * maxCols * 2 = 3840 := rfl
  rw [scrollUp, hrows, scrollRows_eq m (Nat.le_refl 24), some_bind, clearRow, hcols, haddr,
    clearCells_eq _ 80 (by omega) (by omega)]
  refine ⟨_, rfl, ?_⟩
  funext r c
  have hr := r.isLt
  have hc := c.isLt
  unfold screen Terminal.scroll
  dsimp only
  by_cases hlast : r.val + 1 < 25
  · rw [dif_pos hlast, if_neg (by omega), if_pos (by omega), if_neg (by omega), if_pos (by omega)]
    refine Prod.ext (congrArg m ?_) (congrArg m ?_)
    · push_cast
      ring
    · push_cast
      ring
  · rw [dif_neg hlast, if_pos (by omega), if_pos (by omega), if_pos (by omega), if_neg (by omega)]
    rfl

/-! ### A character -/

variable {p : Cursor 25 80}

/-- A position on the screen is left as it is. -/
theorem checkCsrPos_in (mapped : Bool) (m : ScrMem) (p : Cursor 25 80) :
    m.checkCsrPos mapped p.row.val p.col.val = some (m, (p.row.val : ℤ), (p.col.val : ℤ)) := by
  have hr := p.row.isLt
  have hc := p.col.isLt
  have hcol : ¬ maxCols ≤ (p.col.val : ℤ) := by unfold maxCols; omega
  have hrow : ¬ maxRows ≤ (p.row.val : ℤ) := by unfold maxRows; omega
  unfold checkCsrPos
  dsimp only
  rw [if_neg hcol, if_neg hcol, if_neg hrow]

/-- One line further down. -/
theorem checkCsrPos_down (m : ScrMem) (p : Cursor 25 80) :
    ∃ m', m.checkCsrPos true (p.row.val + 1) p.col.val =
        some (m', (p.down.1.row.val : ℤ), (p.down.1.col.val : ℤ)) ∧
      screen m' = if p.down.2 then Terminal.scroll blankCell (screen m) else screen m := by
  by_cases hlt : p.row.val + 1 < 25
  · rw [Cursor.down_of_lt hlt]
    refine ⟨m, ?_, rfl⟩
    have hin := checkCsrPos_in true m ⟨⟨p.row.val + 1, hlt⟩, p.col⟩
    push_cast at hin
    push_cast
    exact hin
  · rw [Cursor.down_of_not_lt hlt]
    obtain ⟨m', hscroll, hscreen⟩ := scrollUp_spec m
    refine ⟨m', ?_, hscreen⟩
    have hr := p.row.isLt
    have hc := p.col.isLt
    have hcol : ¬ maxCols ≤ (p.col.val : ℤ) := by unfold maxCols; omega
    have hrow : maxRows ≤ (p.row.val + 1 : ℤ) := by unfold maxRows; omega
    have hlast : maxRows - 1 = (p.row.val : ℤ) := by unfold maxRows; omega
    unfold checkCsrPos
    dsimp only
    rw [if_neg hcol, if_neg hcol, if_pos hrow, if_pos rfl, hscroll, some_bind, hlast]

/-- A column of the same line, or the beginning of the next. -/
theorem checkCsrPos_goto (m : ScrMem) (p : Cursor 25 80) (n : ℕ) :
    ∃ m', m.checkCsrPos true p.row.val n =
        some (m', ((p.goto n).1.row.val : ℤ), ((p.goto n).1.col.val : ℤ)) ∧
      screen m' = if (p.goto n).2 then Terminal.scroll blankCell (screen m) else screen m := by
  by_cases hlt : n < 80
  · rw [Cursor.goto_of_lt hlt]
    exact ⟨m, checkCsrPos_in true m ⟨p.row, ⟨n, hlt⟩⟩, rfl⟩
  · rw [Cursor.goto_of_not_lt hlt]
    have hwrap : m.checkCsrPos true p.row.val n = m.checkCsrPos true (p.row.val + 1) 0 := by
      have hcol : maxCols ≤ (n : ℤ) := by unfold maxCols; omega
      have hzero : ¬ maxCols ≤ 0 := by decide
      unfold checkCsrPos
      dsimp only
      rw [if_pos hcol, if_pos hcol, if_neg hzero, if_neg hzero]
    rw [hwrap]
    exact checkCsrPos_down m ⟨p.row, p.first⟩

/-- Where a cell is. -/
theorem index_eq (p : Cursor 25 80) :
    (p.row.val * maxCols * 2 + p.col.val * 2 : ℤ) = p.row.val * 160 + p.col.val * 2 := by
  unfold maxCols
  ring

/-- A cell is stored. -/
theorem screen_store (m : ScrMem) (p : Cursor 25 80) (c attr : UInt8) :
    screen (Function.update
        (Function.update m (p.row.val * maxCols * 2 + p.col.val * 2) c)
        (p.row.val * maxCols * 2 + p.col.val * 2 + 1) attr) =
      Terminal.store p (c, attr) (screen m) := by
  funext r k
  have hk := k.isLt
  have hc := p.col.isLt
  rw [index_eq, Terminal.store_apply]
  unfold screen
  split_ifs with hplace
  · rw [hplace.1, hplace.2, Function.update_self, Function.update_of_ne (by omega),
      Function.update_self]
  · have hne : ¬ (r.val = p.row.val ∧ k.val = p.col.val) := fun h =>
      hplace ⟨Fin.ext h.1, Fin.ext h.2⟩
    rw [Function.update_of_ne (by omega), Function.update_of_ne (by omega),
      Function.update_of_ne (by omega), Function.update_of_ne (by omega)]

/-- The flags with which a character and its attribute are stored. -/
structure StoresBoth (flags : ULONG) : Prop where
  /-- `LX_SCRFLG_SETCHAR` -/
  setchar : flags &&& scrflgSetchar ≠ 0
  /-- `LX_SCRFLG_SETATTR` -/
  setattr : flags &&& scrflgSetattr ≠ 0

/-- A byte that is written if a flag is set. -/
theorem writeIf_eq {flag : Prop} [Decidable flag] (h : 0 ≤ i ∧ i < 4000) (b : UInt8) :
    (if flag then m.write i b else some m) =
      some (Function.update m i (if flag then b else m i)) := by
  by_cases hflag : flag
  · rw [if_pos hflag, if_pos hflag, write_eq h]
  · rw [if_neg hflag, if_neg hflag, Function.update_eq_self]

theorem tab_eq (n : ℕ) :
    ((n : ℤ) + tabStep).tdiv tabStep * tabStep = (((n / 8 + 1) * 8 : ℕ) : ℤ) := by
  unfold tabStep
  rw [Int.tdiv_eq_ediv_of_nonneg (by omega)]
  push_cast
  omega

/-- What the `switch` does with a character that is stored. -/
theorem putSwitch_store (m : ScrMem) (p : Cursor 25 80) {c : UInt8} (attr : UInt8) (flags : ULONG)
    (hret : c ≠ 0x0D) (hdown : c ≠ 0x0A) (htab : c ≠ 0x09) :
    ∃ m', m.putSwitch p.row.val p.col.val c attr flags =
        some (m', (p.row.val : ℤ), ((p.col.val + 1 : ℕ) : ℤ)) ∧
      screen m' = Terminal.store p (flagCell flags (screen m p.row p.col) c attr) (screen m) := by
  have hr := p.row.isLt
  have hc := p.col.isLt
  have hindex := index_eq p
  unfold putSwitch
  dsimp only
  rw [if_neg hret, if_neg hdown, if_neg htab, writeIf_eq (by omega), some_bind,
    writeIf_eq (by omega), some_bind, Function.update_of_ne (by omega)]
  refine ⟨_, by push_cast; rfl, ?_⟩
  rw [screen_store, index_eq]
  rfl

/-- **A character** with any flags does on the page what it does on a terminal. -/
theorem putReal_flags (m : ScrMem) (p : Cursor 25 80) (c attr : UInt8) (flags : ULONG) :
    let t := Terminal.apply blankCell 8 ⟨screen m, p⟩ (flagOp flags (screen m p.row p.col) attr c)
    ∃ m', m.putReal p.row.val p.col.val c attr flags =
        some (m', (t.cursor.row.val : ℤ), (t.cursor.col.val : ℤ)) ∧ screen m' = t.cells := by
  intro t
  unfold t putReal flagOp
  rw [checkCsrPos_in, some_bind]
  dsimp only
  by_cases hret : c = 0x0D
  · have hswitch : m.putSwitch p.row.val p.col.val c attr flags =
        some (m, (p.row.val : ℤ), 0) := if_pos hret
    rw [hswitch, some_bind, if_pos hret]
    exact ⟨m, checkCsrPos_in true m ⟨p.row, p.first⟩, rfl⟩
  by_cases hdown : c = 0x0A
  · have hswitch : m.putSwitch p.row.val p.col.val c attr flags =
        some (m, (p.row.val + 1 : ℤ), (p.col.val : ℤ)) := by
      rw [putSwitch, if_neg hret, if_pos hdown]
    rw [hswitch, some_bind, if_neg hret, if_pos hdown]
    exact checkCsrPos_down m p
  by_cases htab : c = 0x09
  · have hswitch : m.putSwitch p.row.val p.col.val c attr flags =
        some (m, (p.row.val : ℤ), (((p.col.val / 8 + 1) * 8 : ℕ) : ℤ)) := by
      rw [putSwitch, if_neg hret, if_neg hdown, if_pos htab, tab_eq]
    rw [hswitch, some_bind, if_neg hret, if_neg hdown, if_pos htab]
    exact checkCsrPos_goto m p _
  · obtain ⟨m₁, hswitch, hstore⟩ := putSwitch_store m p attr flags hret hdown htab
    rw [hswitch, some_bind, if_neg hret, if_neg hdown, if_neg htab]
    obtain ⟨m', hcheck, hscreen⟩ := checkCsrPos_goto m₁ p (p.col.val + 1)
    rw [hstore] at hscreen
    exact ⟨m', hcheck, hscreen⟩

/-- With the flags for both, the whole cell is stored. -/
theorem flagOp_eq {flags : ULONG} (hflags : StoresBoth flags) (old : ScrCell) (attr c : UInt8) :
    flagOp flags old attr c = termOp attr c := by
  unfold flagOp termOp flagCell
  rw [if_pos hflags.setchar, if_pos hflags.setattr]

/-- **A character** does on the page what it does on a terminal. -/
theorem putReal_spec (m : ScrMem) (p : Cursor 25 80) (c attr : UInt8) {flags : ULONG}
    (hflags : StoresBoth flags) :
    let t := Terminal.apply blankCell 8 ⟨screen m, p⟩ (termOp attr c)
    ∃ m', m.putReal p.row.val p.col.val c attr flags =
        some (m', (t.cursor.row.val : ℤ), (t.cursor.col.val : ℤ)) ∧ screen m' = t.cells := by
  rw [← flagOp_eq hflags (screen m p.row p.col)]
  exact putReal_flags m p c attr flags

end ScrMem

open ScrMem

/-! ### A message -/

/-- The first three bytes of a buffer whose string has as many, and what is behind them. -/
theorem getD_of_str {msg text : Bytes} {x y z : UInt8} (h : CString.str msg = x :: y :: z :: text) :
    msg.getD 0 0 = x ∧ msg.getD 1 0 = y ∧ msg.getD 2 0 = z ∧ CString.str (msg.drop 3) = text := by
  have hlen : 3 ≤ CString.strlen msg := by
    rw [CString.strlen, h]
    exact Nat.le_add_left 3 _
  have hdrop : CString.str (msg.drop 3) = text := by
    rw [CString.str_drop hlen, h]
    rfl
  rcases CString.eq_str_append msg with hmsg | ⟨rest, hmsg⟩
  · rw [h] at hmsg
    exact ⟨by rw [hmsg]; rfl, by rw [hmsg]; rfl, by rw [hmsg]; rfl, hdrop⟩
  · rw [h] at hmsg
    exact ⟨by rw [hmsg]; rfl, by rw [hmsg]; rfl, by rw [hmsg]; rfl, hdrop⟩

/-- A text that does not say its attribute. -/
theorem leadAttr_of_not {text : Bytes}
    (h : ∀ d rest, text = 0x3C :: d :: 0x3E :: rest → ¬ (0x30 ≤ d ∧ d ≤ 0x37)) :
    leadAttr text = (7, text) := by
  unfold leadAttr
  split
  · rw [if_neg (h _ _ rfl)]
  · rfl

theorem leadAttr_digit {d : UInt8} (h : 0x30 ≤ d ∧ d ≤ 0x37) (text : Bytes) :
    leadAttr (0x3C :: d :: 0x3E :: text) = (leadAttrs.getD (d.toNat - 0x30) 7, text) :=
  if_pos h

/-- The attribute of a digit. -/
theorem attrSwitch_eq {d : UInt8} (h : 0x30 ≤ d ∧ d ≤ 0x37) :
    Scr.attrSwitch d = leadAttrs.getD (d.toNat - 0x30) 7 := by
  have hlo := UInt8.le_iff_toNat_le.1 h.1
  have hhi := UInt8.le_iff_toNat_le.1 h.2
  obtain ⟨n, hn, rfl⟩ : ∃ n < 8, d = UInt8.ofNat (0x30 + n) := by
    refine ⟨d.toNat - 0x30, ?_, UInt8.toNat_inj.1 ?_⟩
    · change d.toNat ≤ 55 at hhi
      omega
    · change 48 ≤ d.toNat at hlo
      rw [UInt8.toNat_ofNat']
      have := d.toNat_lt
      omega
  interval_cases n <;> rfl

/-- The attribute and the text are those of the string in the buffer. -/
theorem stringAttr_spec (msg : Bytes) :
    ((Scr.stringAttr msg).1, CString.str (Scr.stringAttr msg).2) = leadAttr (CString.str msg) := by
  by_cases hlen : 2 < CString.strlen msg
  · obtain ⟨x, y, z, text, hstr⟩ : ∃ x y z text, CString.str msg = x :: y :: z :: text := by
      unfold CString.strlen at hlen
      match CString.str msg, hlen with
      | x :: y :: z :: text, _ => exact ⟨x, y, z, text, rfl⟩
    obtain ⟨hx, hy, hz, hdrop⟩ := getD_of_str hstr
    unfold Scr.stringAttr
    rw [hx, hy, hz]
    by_cases hlead : x = 0x3C ∧ z = 0x3E ∧ 0x30 ≤ y ∧ y ≤ 0x37
    · rw [if_pos ⟨hlen, hlead⟩, hstr, hlead.1, hlead.2.1, leadAttr_digit hlead.2.2, hdrop,
        attrSwitch_eq hlead.2.2]
    · rw [if_neg fun h => hlead h.2, leadAttr_of_not]
      · rfl
      · rintro d rest hrest hd
        rw [hstr] at hrest
        simp only [List.cons.injEq] at hrest
        obtain ⟨rfl, rfl, rfl, -⟩ := hrest
        exact hlead ⟨rfl, rfl, hd⟩
  · unfold Scr.stringAttr
    rw [if_neg fun h => hlen h.1, leadAttr_of_not]
    · rfl
    · rintro d rest hrest -
      apply hlen
      rw [CString.strlen, hrest]
      exact Nat.le_add_left 3 _

namespace Scr

theorem storesBoth_stringFlags : StoresBoth stringFlags := ⟨by decide, by decide⟩

variable {s : Scr} {t : ScrTerminal}

/-- A character is written from the cursor on, and the position behind it is stored. -/
theorem putCharAt_spec (hmapped : s.mapped = true) (h : s.Shows t) {ptr : ScrPtr}
    (hptr : ptr ≠ .null) (c attr : UInt8) :
    let t' := Terminal.apply blankCell 8 t (termOp attr c)
    ∃ m', s.putCharAt ptr ptr c attr stringFlags =
        some (0, ({ s with mem := m' }.setRow t'.cursor.row.val ptr).setCol t'.cursor.col.val ptr) ∧
      screen m' = t'.cells := by
  obtain ⟨m', hput, hscreen⟩ := putReal_spec s.mem t.cursor c attr storesBoth_stringFlags
  have hterm : (⟨screen s.mem, t.cursor⟩ : ScrTerminal) = t := by rw [h.cells]
  have hflag : ¬ stringFlags &&& scrflgNoupdcsr = 0 := by decide
  rw [hterm] at hput hscreen
  refine ⟨m', ?_, hscreen⟩
  unfold putCharAt
  rw [if_pos hmapped, if_pos hptr, some_bind, if_pos hptr, some_bind, h.row, h.col, hput, some_bind]
  dsimp only
  rw [if_neg hflag]

/-- A character at the cursor. -/
theorem putCharAt_cur (hmapped : s.mapped = true) (h : s.Shows t) (c attr : UInt8) :
    ∃ s', s.putCharAt .cur .cur c attr stringFlags = some (0, s') ∧ s'.mapped = true ∧
      s'.Shows (Terminal.apply blankCell 8 t (termOp attr c)) := by
  obtain ⟨m', hput, hscreen⟩ := putCharAt_spec hmapped h (by decide : ScrPtr.cur ≠ .null) c attr
  exact ⟨_, hput, hmapped, hscreen, rfl, rfl⟩

/-- The loop of a message at the cursor. -/
theorem putChars_cur (hmapped : s.mapped = true) (h : s.Shows t) (attr : UInt8) (text : Bytes) :
    ∃ s', s.putChars .cur .cur attr stringFlags text = some s' ∧ s'.mapped = true ∧
      s'.Shows (t.write blankCell 8 (text.map (termOp attr))) := by
  induction text generalizing s t with
  | nil => exact ⟨s, rfl, hmapped, h⟩
  | cons c text ih =>
    obtain ⟨s₁, hput, hmapped₁, h₁⟩ := putCharAt_cur hmapped h c attr
    obtain ⟨s', hrest, hmapped', h'⟩ := ih hmapped₁ h₁
    refine ⟨s', ?_, hmapped', h'⟩
    rw [putChars, hput, some_bind]
    exact hrest

/-- With a null pointer there is no character. -/
theorem putCharAt_of_null (hmapped : s.mapped = true) {row col : ScrPtr}
    (hnull : ¬ (row ≠ .null ∧ col ≠ .null)) (c attr : UInt8) (flags : ULONG) :
    s.putCharAt row col c attr flags = none := by
  unfold putCharAt
  rw [if_pos hmapped]
  by_cases hrow : row = .null
  · rw [hrow]
    rfl
  · have hcol : col = .null := by
      by_contra hcol
      exact hnull ⟨hrow, hcol⟩
    rw [if_pos hrow, some_bind, hcol]
    rfl

/-- `LX_scr_put_string_at` after its loop. -/
theorem putStringAt_of_putChars (hmapped : s.mapped = true) {row col : ScrPtr} {msg : Bytes}
    {s' : Scr} (hput : s.putChars row col (leadAttr (CString.str msg)).1 stringFlags
      (leadAttr (CString.str msg)).2 = some s') :
    s.putStringAt row col msg = some (0, s'.setCursorPos s'.curRow s'.curCol) := by
  rw [← stringAttr_spec] at hput
  unfold putStringAt
  rw [if_pos hmapped]
  dsimp only
  rw [hput, some_bind]

/-- The registers of a place. -/
theorem csrAddr_setCursorPos (p : Cursor 25 80) :
    csrAddr (s.setCursorPos p.row.val p.col.val).vga = addrOf p := by
  have hr := p.row.isLt
  have hc := p.col.isLt
  unfold csrAddr setCursorPos addrOf
  dsimp only
  rw [UInt8.toNat_ofNat', UInt8.toNat_ofNat']
  omega

/-- **A message** does on the page what it does on a terminal. -/
theorem putString_spec (hmapped : s.mapped = true) (h : s.Shows t) (msg : Bytes) :
    ∃ s', s.putString msg = some (0, s') ∧ s'.mapped = true ∧ s'.Shows (writeMessage t msg) ∧
      csrAddr s'.vga = addrOf (writeMessage t msg).cursor := by
  obtain ⟨s', hput, hmapped', h'⟩ := putChars_cur hmapped h (leadAttr (CString.str msg)).1
    (leadAttr (CString.str msg)).2
  have hwrite : s'.Shows (writeMessage t msg) := h'
  refine ⟨s'.setCursorPos s'.curRow s'.curCol, putStringAt_of_putChars hmapped hput, hmapped',
    ⟨hwrite.cells, hwrite.row, hwrite.col⟩, ?_⟩
  rw [hwrite.row, hwrite.col]
  exact csrAddr_setCursorPos _

/-! ### Opening the screen -/

/-- The position of the registers, which may be below the last line. -/
theorem checkCsrPos_placeAt (mapped : Bool) (m : ScrMem) (addr : ℕ) :
    ∃ m', m.checkCsrPos mapped (addr / 80 : ℕ) (addr % 80 : ℕ) =
        some (m', ((placeAt addr).row.val : ℤ), ((placeAt addr).col.val : ℤ)) ∧
      screen m' = if mapped = true ∧ 25 ≤ addr / 80 then Terminal.scroll blankCell (screen m)
        else screen m := by
  have hcol : ¬ maxCols ≤ ((addr % 80 : ℕ) : ℤ) := by unfold maxCols; omega
  unfold checkCsrPos placeAt
  dsimp only
  rw [if_neg hcol, if_neg hcol]
  by_cases hlt : addr / 80 < 25
  · have hrow : ¬ maxRows ≤ ((addr / 80 : ℕ) : ℤ) := by unfold maxRows; omega
    have hmin : min (addr / 80) 24 = addr / 80 := by omega
    rw [if_neg hrow, hmin, if_neg (by omega)]
    exact ⟨m, rfl, rfl⟩
  · have hrow : maxRows ≤ ((addr / 80 : ℕ) : ℤ) := by unfold maxRows; omega
    have hmin : min (addr / 80) 24 = 24 := by omega
    rw [if_pos hrow, hmin]
    cases mapped with
    | false => exact ⟨m, rfl, rfl⟩
    | true =>
      obtain ⟨m', hscroll, hscreen⟩ := scrollUp_spec m
      rw [if_pos rfl, hscroll, some_bind, if_pos ⟨rfl, by omega⟩]
      exact ⟨m', rfl, hscreen⟩

theorem getCursorPos_eq (vga : UInt8 × UInt8) :
    getCursorPos vga = (((csrAddr vga / 80 : ℕ) : ℤ), ((csrAddr vga % 80 : ℕ) : ℤ)) := by
  unfold getCursorPos csrAddr
  dsimp only
  rw [Int.tdiv_eq_ediv_of_nonneg (by omega)]
  refine Prod.ext ?_ ?_
  · push_cast
    rfl
  · push_cast
    omega

variable {r : RefScreen}

/-- **Opening the screen** opens the terminal. -/
theorem openScreen_refines (h : s.Refines r) (vga : UInt8 × UInt8) (page : Option ScrMem) :
    ∃ s', s.openScreen vga page = some ((r.act (.openScreen vga page)).1, s') ∧
      s'.Refines (r.act (.openScreen vga page)).2 := by
  obtain ⟨m', hcheck, hscreen⟩ := checkCsrPos_placeAt s.mapped s.mem (csrAddr vga)
  unfold openScreen RefScreen.act
  rw [getCursorPos_eq]
  dsimp only
  rw [hcheck, some_bind]
  dsimp only
  rw [← h.mapped]
  cases hmapped : s.mapped with
  | true =>
    refine ⟨_, rfl, ⟨?_, rfl, rfl⟩, rfl, rfl⟩
    rw [hmapped, h.cells] at hscreen
    simpa using hscreen
  | false =>
    cases page with
    | some mem => exact ⟨_, rfl, ⟨rfl, rfl, rfl⟩, rfl, rfl⟩
    | none =>
      refine ⟨_, rfl, ⟨?_, rfl, rfl⟩, rfl, rfl⟩
      rw [hmapped, h.cells] at hscreen
      simpa using hscreen

/-- **Each function** does on the screen what it does on a terminal. -/
theorem act_refines (h : s.Refines r) (a : ScrAct) :
    ∃ s', s.act a = some ((r.act a).1, s') ∧ s'.Refines (r.act a).2 := by
  cases a with
  | openScreen vga page => exact openScreen_refines h vga page
  | closeScreen => exact ⟨_, rfl, ⟨h.cells, h.row, h.col⟩, rfl, h.vga⟩
  | putString msg =>
    unfold act RefScreen.act
    dsimp only
    rw [← h.mapped]
    cases hmapped : s.mapped with
    | true =>
      obtain ⟨s', hput, hmapped', hshows, hcsr⟩ := putString_spec hmapped h.toShows msg
      exact ⟨s', hput, hshows, hmapped', hcsr⟩
    | false =>
      have hput : s.putString msg = some (negEnxio, s) := if_neg (by rw [hmapped]; decide)
      exact ⟨s, hput, h⟩

theorem start_refines (mem : ScrMem) (vga : UInt8 × UInt8) :
    (start mem vga).Refines (RefScreen.start mem vga) :=
  ⟨⟨rfl, rfl, rfl⟩, rfl, rfl⟩

/-- **In every run** the screen is a terminal: nothing is read or written beside the page, the
cursor is in range, and the results are those of the terminal. -/
theorem exec_refines (mem : ScrMem) (vga : UInt8 × UInt8) (as : List ScrAct) :
    ∃ s r, (machine (start mem vga)).exec (start mem vga) as = some s ∧
      (RefScreen.machine (RefScreen.start mem vga)).exec (RefScreen.start mem vga) as = some r ∧
      s.Refines r ∧
      (machine (start mem vga)).collect results (start mem vga) as =
        (RefScreen.machine (RefScreen.start mem vga)).collect RefScreen.results
          (RefScreen.start mem vga) as := by
  refine Machine.exec_simulates (fun s r a h => ?_) (start_refines mem vga) as
  obtain ⟨s', hact, hrefines⟩ := act_refines h a
  refine ⟨s', (r.act a).2, ?_, rfl, hrefines, ?_⟩
  · unfold machine
    dsimp only
    rw [hact]
    rfl
  · unfold results
    rw [hact]
    rfl

end Scr

end LxApi32
