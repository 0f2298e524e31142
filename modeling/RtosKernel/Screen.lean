import RtosKernel.Terminal

/-!
# The screen (`kernel.c`)

The functions that draw outside the text of the terminal: the header, `terminal_write_at` and the uptime in
row 1. The stores into the VGA buffer are listed as well, with the arguments of `vga_entry`, so that it can
be said which cells were written and with which character.
-/

namespace RtosKernel

open Lib

/-! ## Drawing at a place -/

/-- `terminal_write_at_col`: `col + i` is computed with 32 bits. -/
def terminalWriteAtCol (str : CString) (row col : Int32) (color : UInt8) (s : Terminal) : Terminal :=
  (List.range str.chars.length).foldl
    (fun s i => vgaPutAt row.toInt (col + Int32.ofNat i).toInt (str.chars.getD i 0) color s) s

/-- `terminal_write_at`. -/
def terminalWriteAt (str : CString) (row col : Int32) (s : Terminal) : Terminal :=
  terminalWriteAtCol str row col vgaColorDefault s

/-- `for (x = 0; x < VGA_WIDTH; x++) VGA_BUFFER[row * VGA_WIDTH + x] = vga_entry(c, color);`. -/
def fillRow (row : ℤ) (c color : UInt8) (s : Terminal) : Terminal :=
  (List.range vgaWidth).foldl
    (fun s (x : ℕ) => { s with vga := Function.update s.vga (row * vgaWidth + x) (vgaEntry c color) }) s

/-- `VGA_COLOR_HEADER` and `VGA_COLOR_TASKBAR`. -/
def vgaColorHeader : UInt8 := 0x0F

/-- `VGA_COLOR_TASKBAR`. -/
def vgaColorTaskbar : UInt8 := 0x0F

/-- `draw_header()`. -/
def drawHeader (s : Terminal) : Terminal :=
  let s := fillRow 0 32 vgaColorHeader s
  let s := terminalWriteAtCol (.ofString "  RTOS x86 v3.1  ") 0 0 vgaColorHeader s
  let s := fillRow 1 45 vgaColorDefault s
  let s := terminalWriteAtCol (.ofString "Task A (Producer Sent) : ") 2 0 vgaColorTaskbar s
  let s := terminalWriteAtCol (.ofString "Task B (Consumer Recv) : ") 3 0 vgaColorTaskbar s
  fillRow 4 45 vgaColorDefault s

/-! ## The uptime -/

/-- `buf[i++] = '0' + n / 10` if `n` has two digits, and `buf[i++] = '0' + n % 10`. A sum that does not fit
into a `char` is cut. -/
def uptimeField (n : UInt32) : List UInt8 :=
  (if n ≥ 10 then [(48 + n / 10).toUInt8] else []) ++ [(48 + n % 10).toUInt8]

/-- The characters of `buf` in `uptime_display_cb`. -/
def uptimeText (sec : UInt32) : List UInt8 :=
  let m := sec / 60
  let h := m / 60
  (if h > 0 then uptimeField h ++ [104] else []) ++ uptimeField (m % 60) ++ [109] ++
    uptimeField (sec % 60) ++ [115]

/-- The loop of `uptime_display_cb` over the characters. -/
def drawUptime (buf : List UInt8) (s : Terminal) : Terminal :=
  let col : ℤ := vgaWidth - buf.length - 1
  (List.range buf.length).foldl (fun s (j : ℕ) =>
    let entry := vgaEntry (buf.getD j 0) vgaColorDefault
    { s with vga := Function.update s.vga (vgaWidth + col + j) entry }) s

/-! ## The stores -/

/-- A store of `vga_entry(char, color)` into a cell of the VGA buffer. -/
structure VgaStore where
  cell : ℤ
  char : UInt8
  color : UInt8

/-- The VGA buffer after the stores. -/
def paint (stores : List VgaStore) (vga : ℤ → UInt16) : ℤ → UInt16 :=
  stores.foldl (fun vga st => Function.update vga st.cell (vgaEntry st.char st.color)) vga

/-- The character that was last stored into each cell. -/
def record (stores : List VgaStore) (written : ℤ → Option UInt8) : ℤ → Option UInt8 :=
  stores.foldl (fun written st => Function.update written st.cell (some st.char)) written

/-- The store of `vga_put_at`. -/
def putAtStores (row col : ℤ) (c color : UInt8) : List VgaStore :=
  if row ≥ 0 ∧ row < vgaHeight ∧ col ≥ 0 ∧ col < vgaWidth then [⟨row * vgaWidth + col, c, color⟩] else []

/-- The stores of a loop that fills a row. -/
def fillRowStores (row : ℤ) (c color : UInt8) : List VgaStore :=
  (List.range vgaWidth).map fun (x : ℕ) => ⟨row * vgaWidth + x, c, color⟩

/-- The stores of `drawLine`. -/
def drawLineStores (line row : ℤ) (color : UInt8) (s : Terminal) : ℕ → ℤ → List VgaStore
  | 0, _ => []
  | n + 1, col =>
    if s.buffer line col ≠ 0 then
      putAtStores row col (s.buffer line col) color ++ drawLineStores line row color s n (col + 1)
    else []

/-- The stores of `refreshRow`. -/
def refreshRowStores (s : Terminal) (row : ℕ) : List VgaStore :=
  let bufIdx := scrollbackGetLineIndex row s
  fillRowStores (headerLines + row) 32 vgaColorDefault ++
    if bufIdx ≥ 0 then drawLineStores bufIdx (headerLines + row) (s.colors bufIdx) s vgaWidth 0 else []

/-- The stores of `drawIndicator`. -/
def indicatorStores (row : ℤ) (indicator : CString) : List VgaStore :=
  (List.range 5).flatMap fun (i : ℕ) => putAtStores row (vgaWidth - 6 + i) (indicator.chars.getD i 0) 0x0F

/-- The stores of `terminal_refresh_view`. -/
def refreshStores (s : Terminal) : List VgaStore :=
  (List.range visibleLines).flatMap (refreshRowStores s) ++
    (if s.viewOffset = 0 then putAtStores (headerLines + visibleLines - 1) s.termCol 95 0x0F else []) ++
    (if s.viewOffset > 0 then indicatorStores headerLines (.ofString "^MORE") else []) ++
    (if s.count > visibleLines ∧ s.viewOffset < s.count - visibleLines then
      indicatorStores (vgaHeight - 1) (.ofString "vMORE") else [])

/-- The stores of a call of the terminal from `s` to `s'`. What is drawn at the end of the call is the text
that is there after it; only a backspace in column 0 draws nothing. -/
def termStores (s s' : Terminal) : TermOp → List VgaStore
  | .clear => (List.range vgaHeight).flatMap fun (y : ℕ) => fillRowStores y 32 vgaColorDefault
  | .putchar c => if c = 8 ∧ s.termCol ≤ 0 then [] else refreshStores s'
  | _ => refreshStores s'

/-- The stores of `terminal_write_at_col`. -/
def writeAtColStores (str : CString) (row col : Int32) (color : UInt8) : List VgaStore :=
  (List.range str.chars.length).flatMap fun i =>
    putAtStores row.toInt (col + Int32.ofNat i).toInt (str.chars.getD i 0) color

/-- The stores of `draw_header`. -/
def headerStores : List VgaStore :=
  fillRowStores 0 32 vgaColorHeader ++
    writeAtColStores (.ofString "  RTOS x86 v3.1  ") 0 0 vgaColorHeader ++
    fillRowStores 1 45 vgaColorDefault ++
    writeAtColStores (.ofString "Task A (Producer Sent) : ") 2 0 vgaColorTaskbar ++
    writeAtColStores (.ofString "Task B (Consumer Recv) : ") 3 0 vgaColorTaskbar ++
    fillRowStores 4 45 vgaColorDefault

/-- The stores of `uptime_display_cb`, right-aligned in row 1. -/
def uptimeStores (buf : List UInt8) : List VgaStore :=
  let col : ℤ := vgaWidth - buf.length - 1
  (List.range buf.length).map fun (j : ℕ) => ⟨vgaWidth + col + j, buf.getD j 0, vgaColorDefault⟩

/-! ## Runs -/

/-- The terminal, `last_sec` of `uptime_display_cb`, and the character last written into each cell. -/
structure Screen where
  term : Terminal
  lastSec : UInt32
  written : ℤ → Option UInt8

/-- A call that draws; `sec` is what `get_uptime_sec` returns at the call. -/
inductive ScreenOp where
  | term (op : TermOp)
  | drawHeader
  | writeAt (str : CString) (row col : Int32)
  | uptimeDisplayCb (sec : UInt32)

/-- `uptime_display_cb()`, which draws only if the second is a new one. -/
def uptimeDisplayCb (sec : UInt32) (s : Screen) : Screen :=
  if sec = s.lastSec then s
  else
    { term := drawUptime (uptimeText sec) s.term
      lastSec := sec
      written := record (uptimeStores (uptimeText sec)) s.written }

/-- A call, with the characters that it writes noted. -/
def screenStep (s : Screen) : ScreenOp → Except OutOfBounds Screen
  | .term op => do
    let t ← termStep s.term op
    pure { s with term := t, written := record (termStores s.term t op) s.written }
  | .drawHeader => pure { s with
      term := RtosKernel.drawHeader s.term, written := record headerStores s.written }
  | .writeAt str row col =>
    pure { s with
      term := terminalWriteAt str row col s.term
      written := record (writeAtColStores str row col vgaColorDefault) s.written }
  | .uptimeDisplayCb sec => pure (RtosKernel.uptimeDisplayCb sec s)

/-- The screen at boot: nothing is written yet. -/
def bootScreen (vga : ℤ → UInt16) : Screen :=
  { term := bootTerminal vga, lastSec := 0, written := fun _ => none }

/-- What a cell holds that had the contents `old` at boot: the attribute 0x0F and the character that was last
written, if one was. -/
def CellShows (old new : UInt16) : Option UInt8 → Prop
  | none => new = old
  | some c => (new >>> 8).toUInt8 = 0x0F ∧ new.toUInt8 = c

/-- Every cell that was written has the attribute 0x0F and the character that was written; the other cells are
as they were at boot. -/
def Monochrome (vga : ℤ → UInt16) (s : Screen) : Prop :=
  ∀ cell, CellShows (vga cell) (s.term.vga cell) (s.written cell)

/-- The character of a `terminal_putchar` is below 0x80. -/
def TermOp.IsAscii : TermOp → Prop
  | .putchar c => c < 0x80
  | _ => True

/-- The characters of the call are below 0x80. Of `terminal_write_at` only those count that fall on the
screen, and of `uptime_display_cb` the first digit of the hours, if there are two. -/
def ScreenOp.IsAscii (s : Screen) : ScreenOp → Prop
  | .term op => op.IsAscii
  | .drawHeader => True
  | .writeAt str row col => ∀ i : ℕ, i < str.chars.length →
      (0 ≤ row.toInt ∧ row.toInt < 25) ∧ 0 ≤ (col + Int32.ofNat i).toInt ∧ (col + Int32.ofNat i).toInt < 80 →
        str.chars.getD i 0 < 0x80
  | .uptimeDisplayCb sec => sec ≠ s.lastSec → 36000 ≤ sec.toNat → (48 + sec.toNat / 36000) % 256 < 128

end RtosKernel
