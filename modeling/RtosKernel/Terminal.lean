import RtosKernel.Lib.CString
import RtosKernel.Lib.Loop
import RtosKernel.Lib.Run

/-!
# The terminal (`kernel.c`)

The text goes into a ring of 200 lines of 80 characters, and twenty lines of it are drawn into the VGA
buffer below the header. Accesses to `scrollback_buffer` are checked: one outside the array ends the call
with `OutOfBounds`. The indices are `int` in the source; none of them leaves the range of `int` as long
as the arguments of the scroll functions do not make them.
-/

namespace RtosKernel

open Lib

/-- `VGA_WIDTH`. -/
abbrev vgaWidth : ℕ := 80

/-- `VGA_HEIGHT`. -/
abbrev vgaHeight : ℕ := 25

/-- `VGA_COLOR_DEFAULT`. -/
def vgaColorDefault : UInt8 := 0x0F

/-- `SCROLLBACK_LINES`. -/
abbrev scrollbackLines : ℕ := 200

/-- `HEADER_LINES`. -/
abbrev headerLines : ℕ := 5

/-- `VISIBLE_LINES`. -/
abbrev visibleLines : ℕ := vgaHeight - headerLines

/-- `scrollback_buffer[line][col]` with an index outside the array. -/
structure OutOfBounds where
  line : ℤ
  col : ℤ
  deriving DecidableEq, Repr

/-- The static data of the terminal, with the VGA buffer. -/
structure Terminal where
  buffer : ℤ → ℤ → UInt8
  colors : ℤ → UInt8
  head : ℤ
  count : ℤ
  viewOffset : ℤ
  termCol : ℤ
  vga : ℤ → UInt16

/-! ## The VGA buffer -/

/-- `vga_entry`. Plain `char` is signed, so a character from 0x80 on is extended with ones. -/
def vgaEntry (c color : UInt8) : UInt16 := c.toInt8.toInt16.toUInt16 ||| (color.toUInt16 <<< 8)

/-- `vga_put_at(row, col, c, color)`, with its test of the place. -/
def vgaPutAt (row col : ℤ) (c color : UInt8) (s : Terminal) : Terminal :=
  if row ≥ 0 ∧ row < vgaHeight ∧ col ≥ 0 ∧ col < vgaWidth then
    { s with vga := Function.update s.vga (row * vgaWidth + col) (vgaEntry c color) }
  else s

/-- `vga_clear_row(row, color)`. -/
def vgaClearRow (row : ℤ) (color : UInt8) (s : Terminal) : Terminal :=
  (List.range vgaWidth).foldl
    (fun s (x : ℕ) => { s with vga := Function.update s.vga (row * vgaWidth + x) (vgaEntry 32 color) }) s

/-! ## The scrollback buffer -/

/-- The read of `scrollback_buffer[i][j]`. -/
def getBuf (i j : ℤ) (s : Terminal) : Except OutOfBounds UInt8 :=
  if (0 ≤ i ∧ i < scrollbackLines) ∧ 0 ≤ j ∧ j < vgaWidth + 1 then .ok (s.buffer i j) else .error ⟨i, j⟩

/-- The store to `scrollback_buffer[i][j]`. -/
def setBuf (i j : ℤ) (c : UInt8) (s : Terminal) : Except OutOfBounds Terminal :=
  if (0 ≤ i ∧ i < scrollbackLines) ∧ 0 ≤ j ∧ j < vgaWidth + 1 then
    .ok { s with buffer := Function.update s.buffer i (Function.update (s.buffer i) j c) }
  else .error ⟨i, j⟩

/-- `for (j = 0; j <= VGA_WIDTH; j++) scrollback_buffer[i][j] = '\0'; scrollback_colors[i] =
VGA_COLOR_DEFAULT;`. -/
def clearLine (i : ℤ) (s : Terminal) : Except OutOfBounds Terminal := do
  let s ← (List.range (vgaWidth + 1)).foldlM (fun s (j : ℕ) => setBuf i j 0 s) s
  pure { s with colors := Function.update s.colors i vgaColorDefault }

/-- `scrollback_init()`. -/
def scrollbackInit (s : Terminal) : Except OutOfBounds Terminal := do
  let s ← (List.range scrollbackLines).foldlM (fun s (i : ℕ) => clearLine i s) s
  pure { s with head := 0, count := 0, viewOffset := 0, termCol := 0 }

/-- `scrollback_add_line()`: the line is closed with a zero, and the next one is emptied. -/
def scrollbackAddLine (s : Terminal) : Except OutOfBounds Terminal := do
  let s ← setBuf s.head s.termCol 0 s
  let s := { s with
    head := (s.head + 1).tmod scrollbackLines
    count := if s.count < scrollbackLines then s.count + 1 else s.count }
  let s ← clearLine s.head s
  pure { s with termCol := 0, viewOffset := 0 }

/-- `scrollback_putchar(c, color)`; behind the last column nothing is stored. -/
def scrollbackPutchar (c color : UInt8) (s : Terminal) : Except OutOfBounds Terminal :=
  if s.termCol < vgaWidth then do
    let s ← setBuf s.head s.termCol c s
    pure { s with colors := Function.update s.colors s.head color, termCol := s.termCol + 1 }
  else pure s

/-- `scrollback_get_line_index(display_line)`: the index of the line that a row shows, or -1. -/
def scrollbackGetLineIndex (displayLine : ℤ) (s : Terminal) : ℤ :=
  if s.count = 0 then -1
  else
    let linesFromEnd := (visibleLines - 1 - displayLine) + s.viewOffset
    if linesFromEnd ≥ s.count then -1
    else
      let idx := s.head - linesFromEnd
      if idx < 0 then idx + scrollbackLines else idx

/-! ## Drawing -/

/-- `for (col = 0; col < VGA_WIDTH && line[col]; col++) vga_put_at(row, col, line[col], color);`, from
column `col` on, with `n` columns left. -/
def drawLine (line row : ℤ) (color : UInt8) : ℕ → ℤ → Terminal → Except OutOfBounds Terminal
  | 0, _, s => pure s
  | n + 1, col, s => do
    let c ← getBuf line col s
    if c ≠ 0 then drawLine line row color n (col + 1) (vgaPutAt row col c color s) else pure s

/-- One pass of the loop of `terminal_refresh_view` over the visible rows. -/
def refreshRow (s : Terminal) (row : ℕ) : Except OutOfBounds Terminal :=
  let screenRow : ℤ := headerLines + row
  let bufIdx := scrollbackGetLineIndex row s
  let s := vgaClearRow screenRow vgaColorDefault s
  if bufIdx ≥ 0 then drawLine bufIdx screenRow (s.colors bufIdx) vgaWidth 0 s else pure s

/-- The five characters of an indicator, at the right end of a row. -/
def drawIndicator (row : ℤ) (indicator : CString) (s : Terminal) : Terminal :=
  (List.range 5).foldl (fun s (i : ℕ) => vgaPutAt row (vgaWidth - 6 + i) (indicator.chars.getD i 0) 0x0F s) s

/-- `terminal_refresh_view()`: the rows, the cursor, and the indicators. -/
def terminalRefreshView (s : Terminal) : Except OutOfBounds Terminal := do
  let s ← (List.range visibleLines).foldlM refreshRow s
  let s := if s.viewOffset = 0 then vgaPutAt (headerLines + visibleLines - 1) s.termCol 95 0x0F s else s
  let s := if s.viewOffset > 0 then drawIndicator headerLines (.ofString "^MORE") s else s
  pure (if s.count > visibleLines ∧ s.viewOffset < s.count - visibleLines then
    drawIndicator (vgaHeight - 1) (.ofString "vMORE") s else s)

/-! ## The calls -/

/-- `terminal_clear()`, which blanks the header, too. -/
def terminalClear (s : Terminal) : Except OutOfBounds Terminal := do
  let s ← scrollbackInit s
  pure ((List.range vgaHeight).foldl (fun s (y : ℕ) => vgaClearRow y vgaColorDefault s) s)

/-- `terminal_putchar(c)`. -/
def terminalPutchar (c : UInt8) (s : Terminal) : Except OutOfBounds Terminal :=
  if c = 10 then do
    let s ← scrollbackAddLine s
    terminalRefreshView s
  else if c = 8 then
    if s.termCol > 0 then do
      let s ← setBuf s.head (s.termCol - 1) 0 { s with termCol := s.termCol - 1 }
      terminalRefreshView s
    else pure s
  else do
    let s ← scrollbackPutchar c vgaColorDefault s
    let s ← if s.termCol ≥ vgaWidth then scrollbackAddLine s else pure s
    terminalRefreshView s

/-- The largest view offset, in `terminal_scroll_up` and `terminal_scroll_to_top`. -/
def maxOffset (s : Terminal) : ℤ :=
  let m := s.count - visibleLines
  if m < 0 then 0 else m

/-- `terminal_scroll_up(lines)`. -/
def terminalScrollUp (lines : ℤ) (s : Terminal) : Except OutOfBounds Terminal :=
  let offset := s.viewOffset + lines
  terminalRefreshView { s with viewOffset := if offset > maxOffset s then maxOffset s else offset }

/-- `terminal_scroll_down(lines)`. -/
def terminalScrollDown (lines : ℤ) (s : Terminal) : Except OutOfBounds Terminal :=
  let offset := s.viewOffset - lines
  terminalRefreshView { s with viewOffset := if offset < 0 then 0 else offset }

/-- `terminal_scroll_to_top()`. -/
def terminalScrollToTop (s : Terminal) : Except OutOfBounds Terminal :=
  terminalRefreshView { s with viewOffset := maxOffset s }

/-- `terminal_scroll_to_bottom()`. -/
def terminalScrollToBottom (s : Terminal) : Except OutOfBounds Terminal :=
  terminalRefreshView { s with viewOffset := 0 }

/-! ## Runs -/

/-- A call of the terminal. -/
inductive TermOp where
  | clear
  | putchar (c : UInt8)
  | scrollUp (lines : ℤ)
  | scrollDown (lines : ℤ)
  | scrollToTop
  | scrollToBottom

/-- A call, on the terminal. -/
def termStep (s : Terminal) : TermOp → Except OutOfBounds Terminal
  | .clear => terminalClear s
  | .putchar c => terminalPutchar c s
  | .scrollUp lines => terminalScrollUp lines s
  | .scrollDown lines => terminalScrollDown lines s
  | .scrollToTop => terminalScrollToTop s
  | .scrollToBottom => terminalScrollToBottom s

/-- No scroll call has a negative argument. -/
def TermOp.Forward : TermOp → Prop
  | .scrollUp lines => 0 ≤ lines
  | .scrollDown lines => 0 ≤ lines
  | _ => True

instance (op : TermOp) : Decidable op.Forward := by
  unfold TermOp.Forward
  cases op <;> infer_instance

/-- The static data at boot, over any contents of the VGA buffer. -/
def bootTerminal (vga : ℤ → UInt16) : Terminal :=
  { buffer := fun _ _ => 0, colors := fun _ => 0, head := 0, count := 0, viewOffset := 0, termCol := 0,
    vga := vga }

/-! ## What the terminal is for -/

/-- The text that was written: the finished lines, and the one that is not. -/
structure Text where
  finished : List (List UInt8)
  current : List UInt8

/-- A line ends at a newline, and after its eightieth character. -/
def Text.put (t : Text) (c : UInt8) : Text :=
  if c = 10 then { finished := t.finished ++ [t.current], current := [] }
  else if c = 8 then { t with current := t.current.dropLast }
  else if t.current.length + 1 = 80 then { finished := t.finished ++ [t.current ++ [c]], current := [] }
  else { t with current := t.current ++ [c] }

/-- All lines, with the unfinished one last. -/
def Text.lines (t : Text) : List (List UInt8) := t.finished ++ [t.current]

/-- The line that is `k` lines before the last one, if it is among the 200 most recent. -/
def Text.before (t : Text) (k : ℕ) : Option (List UInt8) := if k < 200 then t.lines.reverse[k]? else none

/-- The character that the cell shows. -/
def charAt (s : Terminal) (row col : ℤ) : UInt8 := (s.vga (row * vgaWidth + col)).toUInt8

/-- The cells of the cursor and of the two indicators. -/
def Marked (s : Terminal) (row col : ℤ) : Prop :=
  (s.viewOffset = 0 ∧ row = 24 ∧ col = s.termCol) ∨
  (0 < s.viewOffset ∧ row = 5 ∧ 74 ≤ col ∧ col < 79) ∨
  ((20 < s.count ∧ s.viewOffset < s.count - 20) ∧ row = 24 ∧ 74 ≤ col ∧ col < 79)

/-- The visible row `r` shows a line, with blanks behind it; the cursor and the indicators may stand over
it. -/
def RowShows (s : Terminal) (r : ℕ) (line : List UInt8) : Prop :=
  ∀ col : ℕ, col < 80 → ¬ Marked s (5 + r) col → charAt s (5 + r) col = line.getD col 32

/-- Every visible row shows its line of the text, or is blank where there is none. -/
def ShowsText (s : Terminal) (t : Text) : Prop :=
  ∀ r : ℕ, r < 20 → RowShows s r ((t.before (19 - r + s.viewOffset.toNat)).getD [])

/-- `terminal_scroll_to_top` brings the oldest of the retained lines to the top, if they do not fit on the
screen. -/
def ScrollsToOldest (s : Terminal) (t : Text) : Prop :=
  20 < min t.lines.length 200 →
    ∃ s', terminalScrollToTop s = .ok s' ∧ RowShows s' 0 ((t.before (min t.lines.length 200 - 1)).getD [])

/-- What a call does to the text. -/
def textStep (t : Text) : TermOp → Text
  | .clear => { finished := [], current := [] }
  | .putchar c => t.put c
  | _ => t

end RtosKernel
